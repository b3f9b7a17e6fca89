import TorrentCore.Session.State

/-!
# Requesting pieces

The requester of a connection greets the peer, waits until the peer tells of its pieces, and then
keeps it busy with one piece at a time: it picks a piece, reserves it, asks for its blocks and
waits until the piece has come or the reservation is over. It has nothing left to do when the
torrent is finished or paused. While there is nothing to ask for, it looks again after every change
and after a second at the latest.
-/

namespace TorrentCore

/-- How long a requester waits when there is nothing to ask for. -/
def recheckInterval : Nanoseconds := 1000000000

namespace Session

/-- What the choice of a piece for a connection depends on. Reserved pieces may be left out of it
or not. -/
def selection (s : Session) (c : Connection) (withReserved : Bool) : Selection where
  pieceCount := s.pieceCount
  ours := s.owned.view
  peer := c.pieces.view
  reserved := if withReserved then some s.reservations.reserved.view else none
  allowed := s.options.allowed.map fun wanted => (setOfBools wanted).view
  availability := some s.hub.availability.counts.toArray

def pick (s : Session) (c : Connection) (withReserved : Bool) (coins : List Bool) : Option Nat :=
  match ((s.selection c withReserved).suggest scriptedCoin : StateM (List Bool) Suggestion) coins with
  | (.piece index, _) => some index
  | _ => none

def ask (s : Session) (number : Nat) (m : Message) (after : Requester) : Session :=
  let (parcel, hub) := s.hub.pack m
  { s with hub := hub }.setRequester number (.sending parcel after)

/-- Tells the peer whether we want something, if that is new. -/
def tell (s : Session) (number : Nat) (c : Connection) (interested : Bool) (after : Requester) :
    Session :=
  if c.amInterested = interested then s.setRequester number after
  else s.ask number (if interested then .interested else .notInterested) after

/-- Looks for something to do. -/
def choose (s : Session) (number : Nat) (c : Connection) (coins : List Bool) : Session :=
  if s.isFinished then s.tell number c false .parting
  else if s.paused then s.setRequester number .retired
  else match s.pick c true coins with
    | some index => s.tell number c true (.claiming index)
    | none => s.tell number c (s.pick c false coins).isSome .resting

/-- Reserves a piece and begins to ask for it, unless the peer chokes us or another peer was
faster. -/
def claim (s : Session) (now : Nanoseconds) (number : Nat) (c : Connection) (index : Nat) :
    Session :=
  if c.amChoked then s.setRequester number .awaitingUnchoke
  else match s.geometry.piece? (UInt32.ofNat index) with
    | none => s.setRequester number .choosing
    | some p =>
      let ttl := s.policy.ttl s.owned.ratio
      match s.reservations.reserve? now index ttl with
      | none => s.setRequester number .choosing
      | some reservations =>
        { s with
          reservations := reservations
          owners := s.owners.insert index c.peerId }.setRequester number
            (.asking index (now + ttl) (s.geometry.start p))

/-- The next step of a requester, if it does not have to wait. Where it sends, the first coin says
whether it notices late that the connection was told to end. -/
def request? (s : Session) (now : Nanoseconds) (number : Nat) (coins : List Bool) :
    Option Session :=
  match s.members.get? number with
  | none => none
  | some m =>
    let c := m.connection
    if !c.isRunning then none
    else match m.requester with
      | .greeting => some (
          if s.owned.hasNone then s.setRequester number .unchoking
          else s.ask number (.bitfield s.owned.bytes) .unchoking)
      | .unchoking => some (s.ask number .unchoke .awaitingPieces)
      | .sending parcel after => match s.deliver now (coins.headD false) number parcel with
        | .sent s => some (s.setRequester number after)
        | .refused s => some ((s.setRequester number .retired).disconnect number)
        | .full => none
      | .awaitingPieces => if c.knowsPieces then some (s.setRequester number .choosing) else none
      | .choosing => some (s.choose number c coins)
      | .claiming index => some (s.claim now number c index)
      | .awaitingUnchoke => if c.amChoked then none else some (s.setRequester number .choosing)
      | .asking index deadline cursor => match s.geometry.next? cursor with
        | some (block, rest) =>
          some (s.ask number (.request ⟨UInt32.ofNat index, block.offset, block.size⟩)
            (.asking index deadline rest))
        | none => some (s.setRequester number (.holding index deadline))
      | .holding index deadline => some (s.setRequester number (
          if s.owned.contains index || !s.reservations.isReserved index then .choosing
          else .awaitingPiece index deadline s.piecesDone))
      | .awaitingPiece index deadline since =>
        if since < s.piecesDone then some (s.setRequester number (.holding index deadline))
        else if deadline.ceilMilliseconds ≤ now then some (s.setRequester number .choosing)
        else none
      | .resting =>
        some (s.setRequester number (.idle c.changes s.piecesDone (now + recheckInterval)))
      | .idle changes since wake =>
        if changes < c.changes || since < s.piecesDone || wake.ceilMilliseconds ≤ now then
          some (s.setRequester number .choosing)
        else none
      | .parting =>
        let s := s.setRequester number .retired
        some (if c.pieces.hasAll then s.disconnect number else s)
      | .retired => none

/-- When a requester goes on by itself. -/
def requesterTimer? : Requester → Option Nanoseconds
  | .awaitingPiece _ deadline _ => some deadline
  | .idle _ _ wake => some wake
  | _ => none

end Session

end TorrentCore
