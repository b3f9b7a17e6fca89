import TorrentCore.Swarm.State

/-!
# Attempts to connect

Every way out of an attempt gives its slot back, once. An attempt of ours is over as a whole after
some time, however far it has come, and its address may be dialed again after that.
-/

namespace TorrentCore

namespace Swarm

def claimSlot? (w : Swarm) (a : Attempt) : Option Swarm :=
  match w.freeSlots with
  | 0 => none
  | free + 1 => some { w with
      freeSlots := free
      attempts := w.attempts.insert w.nextNumber { a with holdsSlot := true }
      nextNumber := w.nextNumber + 1 }

/-- An incoming connection. Nothing is begun without a free slot. -/
def accept (w : Swarm) (now : Nanoseconds) (link : Link) (address : Address) : Option Swarm :=
  w.claimSlot? {
    address := address
    dialer := none
    link := link
    phase := .exchanging (.inbound w.peerId w.options.handshakeTimeout
      w.options.connection.maxMessage now)
    giveUp := none
    holdsSlot := false }

/-- Dials an address for a session. Nothing is begun without a free slot. -/
def dial (w : Swarm) (now : Nanoseconds) (number : Nat) (address : Address) : Option Swarm :=
  w.claimSlot? {
    address := address
    dialer := some number
    link := .make 0
    phase := .dialing
    giveUp := some (now + w.options.connectTimeout)
    holdsSlot := false }

def releaseSlot (w : Swarm) (number : Nat) (a : Attempt) : Swarm :=
  if a.holdsSlot then
    { w.modifyAttempt number fun a => { a with holdsSlot := false } with
      freeSlots := w.freeSlots + 1 }
  else w

def doneConnecting (w : Swarm) (a : Attempt) : Swarm :=
  match a.dialer with
  | some dialer => w.modifySession dialer fun s => s.doneConnecting a.address
  | none => w

/-- The attempt is over and came to nothing. -/
def abandon (w : Swarm) (number : Nat) (a : Attempt) : Swarm :=
  ((w.releaseSlot number a).modifyAttempt number fun a =>
    { a with phase := .over, link := a.link.hangUp }).doneConnecting a

/-- The session that takes the connection of an attempt whose peer has sent a handshake, with its
number. -/
def taker? (w : Swarm) (a : Attempt) (h : Handshake) : Option (Nat × Session) :=
  match a.dialer with
  | none => match w.torrents.get? h.infoHash with
    | some number => (w.sessions.get? number).map fun s => (number, s)
    | none => none
  | some number => match w.sessions.get? number with
    | some s => if s.paused then none else some (number, s)
    | none => none

/-- The handshakes fit: the link goes to the session, unless that refuses it. -/
def promote (w : Swarm) (now : Nanoseconds) (number : Nat) (a : Attempt) (x : Exchange)
    (h : Handshake) : Swarm :=
  match w.taker? a h with
  | none => w.abandon number a
  | some (taker, s) => match s.addPeer now number a.link a.address h x.buffer with
    | .error _ => w.abandon number a
    | .ok s =>
      let w := (w.releaseSlot number a).modifyAttempt number fun a => { a with phase := .over }
      { w with sessions := w.sessions.insert taker s }.doneConnecting a

/-- A step of the exchange of an attempt. When the exchange is over so is the attempt. -/
def exchange? (w : Swarm) (now : Nanoseconds) (number : Nat) : Option Swarm :=
  match w.attempts.get? number with
  | some a => match a.phase with
    | .exchanging x => match x.step? w.isServed now a.link with
      | none => none
      | some (x, link) =>
        let a := { a with phase := .exchanging x, link := link }
        let w := w.modifyAttempt number fun _ => a
        some (match x.result? with
          | none => w
          | some (.error _) => w.abandon number a
          | some (.ok h) => w.promote now number a x h)
    | _ => none
  | none => none

def answerDial? (w : Swarm) (now : Nanoseconds) (number : Nat) (link : Option Link) :
    Option Swarm :=
  match w.attempts.get? number with
  | some a => match a.phase, link, a.dialer.bind w.sessions.get? with
    | .dialing, some link, some s => some (w.modifyAttempt number fun a => { a with
        link := link
        phase := .exchanging (.outbound s.infoHash w.peerId w.options.handshakeTimeout
          w.options.connection.maxMessage now) })
    | .dialing, _, _ => some (w.abandon number a)
    | _, _, _ => none
  | none => none

/-- Whether what an attempt belongs to has been stopped. -/
def isCalledOff (w : Swarm) (a : Attempt) : Bool :=
  match a.dialer with
  | none => w.stopped
  | some dialer => match w.sessions.get? dialer with
    | some s => s.cancelled
    | none => true

/-- Ends an attempt that took too long as a whole, or was called off. -/
def giveUp? (w : Swarm) (now : Nanoseconds) (number : Nat) : Option Swarm :=
  match w.attempts.get? number with
  | some a => match a.phase with
    | .over => none
    | _ =>
      let late := match a.giveUp with
        | some time => decide (time.ceilMilliseconds ≤ now)
        | none => false
      if late || w.isCalledOff a then some (w.abandon number a) else none
  | none => none

def attemptTimer? (a : Attempt) : Option Nanoseconds :=
  let exchange := match a.phase with
    | .exchanging x => x.timer?
    | _ => none
  match a.phase with
  | .over => none
  | _ => match a.giveUp, exchange with
    | some s, some t => some (min s t)
    | some s, none => some s
    | none, other => other

end Swarm

end TorrentCore
