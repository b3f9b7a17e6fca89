import TorrentCore.Error

/-!
# Read buffers

Bytes read from a stream wait in a buffer of fixed size until they form a handshake or a message.
The bytes that wait are one stretch of the buffer. It is moved to the front when the rest of a frame
does not fit behind it, so a buffer made for messages of some length takes every frame of that
length. Of a frame that does not fit even then, what has come stays at the front.
-/

namespace TorrentCore

/-- Bytes that were read and not yet used. -/
structure ReadBuffer where
  capacity : Nat
  start : Nat
  pending : Bytes
deriving DecidableEq, Repr, Inhabited

namespace ReadBuffer

/-- A buffer for messages up to a length. A handshake fits in any case. -/
def forMessages (limit : UInt32) : ReadBuffer :=
  ⟨max (limit.toNat + lengthWordSize) handshakeLength, 0, []⟩

def stop (b : ReadBuffer) : Nat := b.start + b.pending.length

def room (b : ReadBuffer) : Nat := b.capacity - b.stop

def receive (b : ReadBuffer) (bytes : Bytes) : ReadBuffer :=
  { b with pending := b.pending ++ bytes }

/-- Drops bytes that were used. An empty stretch starts again at the front. -/
def consume (b : ReadBuffer) (count : Nat) : ReadBuffer :=
  match b.pending.drop count with
  | [] => { b with start := 0, pending := [] }
  | rest => { b with start := b.start + count, pending := rest }

def hasRoom (b : ReadBuffer) (count : Nat) : Bool := b.stop + count ≤ b.capacity

/-- Moves the stretch to the front unless `count` more bytes fit behind it. -/
def makeRoom (b : ReadBuffer) (count : Nat) : ReadBuffer :=
  if b.hasRoom count then b else { b with start := 0 }

/-- What is at the front of a buffer. -/
inductive Front (α ε : Type) where
  | item (value : α) (rest : ReadBuffer)
  | more (b : ReadBuffer)
  /-- Reading more does not help. -/
  | failed (cause : ε) (b : ReadBuffer)

/-- Looks for a message, passing over at most `fuel` frames of kinds that are not spoken here. -/
def frontMessage (limit : UInt32) (fuel : Nat) (b : ReadBuffer) : Front Message Error :=
  match Message.decode b.pending limit, fuel with
  | .ok (m, size), _ => .item m (b.consume size)
  | .error (.notEnough missing _), _ =>
    let b := b.makeRoom missing
    if b.hasRoom missing then .more b else .failed (.readBufferFull missing) b
  | .error (.unsupported _ frame), fuel + 1 => frontMessage limit fuel (b.consume frame)
  | .error e, _ => .failed (.decode e) b

/-- The next message. A frame has at least one byte, so no more frames are passed over than there
are bytes. -/
def message (b : ReadBuffer) (limit : UInt32) : Front Message Error :=
  b.frontMessage limit b.pending.length

def handshake (b : ReadBuffer) : Front Handshake HandshakeError :=
  match Handshake.decode b.pending with
  | .ok h => .item h (b.consume handshakeLength)
  | .error (.badLength received) => .failed (.badLength received) b
  | .error .protocolMismatch => .failed .protocolMismatch b
  | .error _ => .more b

def truncated (b : ReadBuffer) : HandshakeError :=
  match Handshake.decode b.pending with
  | .error e => .ofTruncated e
  | .ok _ => .noResponse

end ReadBuffer

end TorrentCore
