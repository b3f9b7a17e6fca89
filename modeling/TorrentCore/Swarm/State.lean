import TorrentCore.Exchange
import TorrentCore.Session.Action

/-!
# Swarms

A swarm owns the sessions of all torrents and every attempt to connect. An attempt holds one of a
bounded number of slots until the handshakes are exchanged; if no slot is free there is no attempt.
An attempt whose handshakes fit gives its link to the session of the torrent.
-/

namespace TorrentCore

/-- Where an attempt to connect stands. -/
inductive AttemptPhase where
  | dialing
  | exchanging (exchange : Exchange)
  | over

/-- An attempt to connect. -/
structure Attempt where
  address : Address
  /-- The session that dialed, by its number. -/
  dialer : Option Nat
  link : Link
  phase : AttemptPhase
  giveUp : Option Nanoseconds
  holdsSlot : Bool

/-- All torrents and all attempts to connect. Sessions, attempts and connections have numbers; a
connection keeps the number of the attempt it came from. -/
structure Swarm where
  peerId : Identifier
  options : SwarmOptions
  /-- All sessions, also those that were removed. -/
  sessions : Table Nat Session
  torrents : Table Identifier Nat
  /-- Sessions that are being added, and whether what they have is to be checked. -/
  adding : Table Nat Bool
  freeSlots : Nat
  /-- All attempts, also those that are over. -/
  attempts : Table Nat Attempt
  nextNumber : Nat
  reconcileAt : Nanoseconds
  stopped : Bool

namespace Swarm

def make (peerId : Identifier) (options : SwarmOptions) (now : Nanoseconds) : Swarm where
  peerId := peerId
  options := options
  sessions := .empty
  torrents := .empty
  adding := .empty
  freeSlots := options.maxHalfOpen
  attempts := .empty
  nextNumber := 0
  reconcileAt := now
  stopped := false

def session? (w : Swarm) (infoHash : Identifier) : Option Session :=
  (w.torrents.get? infoHash).bind w.sessions.get?

/-- Whether a handshake for a torrent may be answered. -/
def isServed (w : Swarm) (infoHash : Identifier) : Bool :=
  match w.session? infoHash with
  | some s => !s.paused
  | none => false

def modifySession (w : Swarm) (number : Nat) (f : Session → Session) : Swarm :=
  { w with sessions := w.sessions.modify number f }

def modifyAttempt (w : Swarm) (number : Nat) (f : Attempt → Attempt) : Swarm :=
  { w with attempts := w.attempts.modify number f }

end Swarm

end TorrentCore
