import TorrentCore.Swarm.Attempts
import TorrentCore.Swarm.Torrents

/-!
# The steps of a swarm

From time to time the connections of all torrents are brought in line with what the torrents need:
a paused torrent has none, and one that misses pieces dials addresses it has heard of.
-/

namespace TorrentCore

namespace Swarm

/-- Dials addresses for a session. Tells whether there was a slot for every one of them. -/
def dialAll (now : Nanoseconds) (number : Nat) : List Address → Swarm → Bool × Swarm
  | [], w => (true, w)
  | a :: rest, w =>
    match (w.modifySession number fun s => s.startConnecting a).dial now number a with
    | some w => dialAll now number rest w
    | none => (false, w)

/-- Brings one session in line. Tells whether slots may be left. -/
def reconcileSession (w : Swarm) (now : Nanoseconds) (number : Nat) : Bool × Swarm :=
  match w.sessions.get? number with
  | none => (true, w)
  | some s =>
    if s.paused then
      (true, if s.peers.isEmpty then w else w.modifySession number Session.dropAllPeers)
    else
      let s := s.removeFinishedPeers
      let w := { w with sessions := w.sessions.insert number s }
      if s.isFinished then (true, w)
      else dialAll now number (s.addressesToDial w.options.maxPeersPerTorrent) w

/-- Brings sessions in line one after the other, until there is no slot left. -/
def reconcileSessions (now : Nanoseconds) : List Nat → Swarm → Swarm
  | [], w => w
  | number :: rest, w => match w.reconcileSession now number with
    | (true, w) => reconcileSessions now rest w
    | (false, w) => w

def reconcile (w : Swarm) (now : Nanoseconds) : Swarm :=
  reconcileSessions now w.torrents.values w

/-- When the next pass is due. Without an interval, or once the swarm has stopped, none is. -/
def reconcileTimer? (w : Swarm) : Option Nanoseconds :=
  if w.stopped || w.options.reconcileInterval = 0 then none else some w.reconcileAt.ceilMilliseconds

def reconcile? (w : Swarm) (now : Nanoseconds) : Option Swarm :=
  if w.reconcileTimer?.all (now < ·) then none
  else some { w.reconcile now with reconcileAt := now + w.options.reconcileInterval }

/-- A step that the swarm does by itself. -/
inductive Action where
  | session (number : Nat) (action : Session.Action)
  | exchange (number : Nat)
  | giveUp (number : Nat)
  | answerDial (number : Nat) (link : Option Link)
  | reconcile
deriving DecidableEq, Repr

def act? (now : Nanoseconds) (w : Swarm) : Action → Option Swarm
  | .session number action => match w.sessions.get? number with
    | none => none
    | some s => (s.act? now action).map fun s => { w with sessions := w.sessions.insert number s }
  | .exchange number => w.exchange? now number
  | .giveUp number => w.giveUp? now number
  | .answerDial number link => w.answerDial? now number link
  | .reconcile => w.reconcile? now

end Swarm

end TorrentCore
