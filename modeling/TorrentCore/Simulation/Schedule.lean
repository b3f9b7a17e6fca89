import TorrentCore.Simulation.Turns
import TorrentCore.Swarm.Action

/-!
# The tasks of a swarm

A swarm may take its steps in any order. Here is the order that simulations use. Each attempt and
each connection is one task; so are, for each session, the announcements, the consumer, the
uploader and the loop that ends reservations. They take turns, and what has to wait for storage or
for the network comes last. A simulated network answers no dial.
-/

namespace TorrentCore

/-- Who takes turns in a swarm. Sessions, attempts and connections are given by their numbers. -/
inductive SwarmTask where
  | attempt (number : Nat)
  | announcer (session : Nat)
  | connection (session number : Nat)
  | consumer (session : Nat)
  | uploader (session : Nat)
  | expiry (session : Nat)
  | reconciler
deriving DecidableEq, Repr

namespace Session

/-- What a session may do by itself, for each task in the order in which it tries. -/
def plan (s : Session) : List Action :=
  let numbers := (s.members.filter fun _ m => !m.closedOut).keys
  (List.range s.announcements.length).map (.announce · false)
    ++ numbers.flatMap (fun n => [.stop n, .receive n, .closeOut n, .request n [], .transmit n])
    ++ [.consume, .pickUpload, .sendUpload false, .expire]

def jobs : List Action := [.finishPiece, .readUpload]

def task (session : Nat) : Action → SwarmTask
  | .stop n | .receive n | .transmit n | .closeOut n | .request n _ => .connection session n
  | .announce _ _ => .announcer session
  | .consume | .finishPiece => .consumer session
  | .pickUpload | .readUpload | .sendUpload _ => .uploader session
  | .expire => .expiry session

def timers (s : Session) : List Nanoseconds :=
  let connections := s.members.values.flatMap fun m =>
    if m.connection.isRunning then
      (Endpoint.timer? m.connection).toList ++ (requesterTimer? m.requester).toList
    else []
  if s.cancelled then connections else connections ++ s.expiry.timer?.toList

end Session

namespace Swarm

def openAttempts (w : Swarm) : List Nat :=
  (w.attempts.filter fun _ a => match a.phase with
    | .over => false
    | _ => true).keys

def tasks (now : Nanoseconds) : TaskSystem Swarm SwarmTask Action where
  activities w := w.openAttempts.flatMap (fun n => [.giveUp n, .exchange n])
    ++ w.sessions.entries.flatMap (fun (n, s) => s.plan.map (.session n)) ++ [.reconcile]
  outside w := w.openAttempts.map (.answerDial · none)
    ++ w.sessions.keys.flatMap fun n => Session.jobs.map (.session n)
  task
    | .session n action => Session.task n action
    | .exchange n | .giveUp n | .answerDial n _ => .attempt n
    | .reconcile => .reconciler
  lasting
    | .session _ (.announce _ _) => false
    | _ => true
  act? w a := w.act? now a

/-- A bound on the steps at one time that no script comes near to. -/
def stepLimit : Nat := 1000000000

def timer? (w : Swarm) : Option Nanoseconds :=
  let times := w.sessions.values.flatMap Session.timers
    ++ w.attempts.values.filterMap attemptTimer?
    ++ w.reconcileTimer?.toList
  times.min?.map Nanoseconds.ceilMilliseconds

end Swarm

structure RunningSwarm where
  swarm : Swarm
  turns : Turns SwarmTask Swarm.Action

namespace RunningSwarm

def settle (r : RunningSwarm) (now : Nanoseconds) : RunningSwarm :=
  let (swarm, turns) := (Swarm.tasks now).run Swarm.stepLimit r.swarm r.turns
  ⟨swarm, turns⟩

/-- Lets time pass up to `target`, stopping at each timer before it. Every stop is at a later whole
millisecond, which bounds their number. -/
def advance (target : Nanoseconds) : Nat → Nanoseconds → RunningSwarm → RunningSwarm
  | 0, _, r => r.settle target
  | fuel + 1, now, r => match r.swarm.timer? with
    | some time =>
      let time := max now time
      if time < target then advance target fuel time (r.settle time) else r.settle target
    | none => r.settle target

end RunningSwarm

end TorrentCore
