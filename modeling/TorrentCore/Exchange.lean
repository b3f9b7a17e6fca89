import TorrentCore.Decimal.Nanoseconds
import TorrentCore.Stream.Pipe
import TorrentCore.Stream.ReadBuffer

/-!
# Exchanging handshakes

The side that dials sends its handshake first and accepts only an answer for the torrent it dialed.
The side that is dialed says nothing until it has read a handshake for a torrent that is served,
and then answers for that torrent. Sending and receiving each have the whole timeout. The buffer
keeps what the other side sent right after its handshake.
-/

namespace TorrentCore

inductive Direction where
  | inbound
  | outbound
deriving DecidableEq, Repr, Inhabited

namespace Exchange

/-- What an exchange waits for. -/
inductive Phase where
  /-- The rest of our handshake has to be written. -/
  | writing (rest : Bytes)
  | reading
  /-- The exchange is over; the peer's handshake is the result. -/
  | over (result : Except HandshakeError Handshake)

end Exchange

/-- An exchange of handshakes in progress. -/
structure Exchange where
  direction : Direction
  ownId : Identifier
  dialed : Option Identifier
  timeout : Nanoseconds
  /-- When the current part is given up. -/
  deadline : Nanoseconds
  buffer : ReadBuffer
  /-- The peer's handshake, once it was read. -/
  theirs : Option Handshake
  phase : Exchange.Phase

namespace Exchange

def inbound (ownId : Identifier) (timeout : Nanoseconds) (limit : UInt32) (now : Nanoseconds) :
    Exchange where
  direction := .inbound
  ownId := ownId
  dialed := none
  timeout := timeout
  deadline := now + timeout
  buffer := .forMessages limit
  theirs := none
  phase := .reading

def outbound (infoHash ownId : Identifier) (timeout : Nanoseconds) (limit : UInt32)
    (now : Nanoseconds) : Exchange where
  direction := .outbound
  ownId := ownId
  dialed := some infoHash
  timeout := timeout
  deadline := now + timeout
  buffer := .forMessages limit
  theirs := none
  phase := .writing (Handshake.plain infoHash ownId).encode

def result? (x : Exchange) : Option (Except HandshakeError Handshake) :=
  match x.phase with
  | .over result => some result
  | _ => none

def fail (x : Exchange) (cause : HandshakeError) : Exchange :=
  { x with phase := .over (.error cause) }

def cancel (x : Exchange) : Exchange :=
  match x.phase with
  | .over _ => x
  | _ => x.fail .cancelled

def expire (x : Exchange) : Exchange := x.fail .noResponse

/-- All of our handshake was written. -/
def written (x : Exchange) (now : Nanoseconds) : Exchange :=
  match x.theirs with
  | some h => { x with phase := .over (.ok h) }
  | none => { x with phase := .reading, deadline := now + x.timeout }

def received (served : Identifier → Bool) (x : Exchange) (now : Nanoseconds) (h : Handshake) :
    Exchange :=
  let x := { x with theirs := some h }
  match x.dialed with
  | some infoHash =>
    if h.infoHash = infoHash then { x with phase := .over (.ok h) }
    else x.fail (.unknownInfoHash h.infoHash)
  | none =>
    if served h.infoHash then
      { x with
        phase := .writing (Handshake.plain h.infoHash x.ownId).encode
        deadline := now + x.timeout }
    else x.fail (.unknownInfoHash h.infoHash)

/-- What one read gave. A read of nothing is the end of the stream. -/
def receive (served : Identifier → Bool) (x : Exchange) (now : Nanoseconds) :
    Arrival → Exchange
  | .failed cause => x.fail (.transport cause)
  | .ended | .data [] => x.fail x.buffer.truncated
  | .data bytes =>
    let x := { x with buffer := x.buffer.receive bytes }
    match x.buffer.handshake with
    | .item h rest => received served { x with buffer := rest } now h
    | .failed e _ => x.fail e
    | .more _ => x

/-- The next step over a link, if the exchange does not have to wait. -/
def step? (served : Identifier → Bool) (now : Nanoseconds) (x : Exchange) (l : Link) :
    Option (Exchange × Link) :=
  let late := if x.deadline.ceilMilliseconds ≤ now then some (x.expire, l) else none
  match x.phase with
  | .over _ => none
  | .writing rest => match l.outgoing.write? rest with
    | none => some (x.fail (.transport Pipe.brokenCause), l)
    | some (left, outgoing) =>
      if left.isEmpty then some (x.written now, { l with outgoing := outgoing })
      else if left.length < rest.length then
        some ({ x with phase := .writing left }, { l with outgoing := outgoing })
      else late
  | .reading => match l.incoming.read? x.buffer.room with
    | some (arrival, incoming) =>
        some (receive served x now arrival, { l with incoming := incoming })
    | none => late

def timer? (x : Exchange) : Option Nanoseconds :=
  match x.phase with
  | .over _ => none
  | _ => some x.deadline

end Exchange

end TorrentCore
