import TorrentCore.Assembly
import TorrentCore.Availability
import TorrentCore.Buffer.Pool
import TorrentCore.Channel
import TorrentCore.Counters
import TorrentCore.Settings.Options
import TorrentCore.Stream.ReadBuffer

/-!
# Connections

A connection to a peer after the handshakes. Two activities share it: a reader, which takes
messages off the stream and applies them, and a writer, which puts queued packets onto the stream.
When either of them ends, the connection has ended.
-/

namespace TorrentCore

inductive UploadKind where
  | request
  | cancel
deriving DecidableEq, Repr

structure UploadRequest where
  peerId : Identifier
  kind : UploadKind
  request : BlockRequest
deriving DecidableEq

/-- Where the reader of a connection stands. -/
inductive ReaderPhase where
  | decoding
  | reading (deadline : Nanoseconds)
  | offeringBlock (block : Block)
  | offeringUpload (request : UploadRequest)
deriving DecidableEq

/-- Where the writer of a connection stands. -/
inductive WriterPhase where
  /-- Waiting for a packet. If none comes, a keep-alive is due at the given time. -/
  | waiting (keepAlive : Nanoseconds)
  /-- Writing the rest of a packet, up to a deadline. -/
  | writing (packet : Buffer) (rest : Bytes) (deadline : Nanoseconds)
deriving DecidableEq

/-- Whether the reader and the writer are at work. -/
inductive RunStatus where
  | notStarted
  | running
  | ended (result : Except Error Unit)

/-- A connection to one peer. -/
structure Connection where
  address : Address
  peerId : Identifier
  options : ConnectionOptions
  /-- The peer chokes us: it does not answer our requests. -/
  amChoked : Bool
  /-- We choke the peer. -/
  peerChoked : Bool
  /-- We told the peer that we want something. -/
  amInterested : Bool
  peerInterested : Bool
  knowsPieces : Bool
  pieces : Bitfield
  connectedAt : Nanoseconds
  lastReceived : Nanoseconds
  lastChokeChange : Option Nanoseconds
  lastInterestChange : Option Nanoseconds
  /-- How many times a flag changed or the peer told of a piece. Waiting for a change is waiting
  for this number to grow. -/
  changes : Nat
  queue : Channel Buffer
  counters : PeerCounters
  /-- The connection has been told to end. -/
  cancelled : Bool
  buffer : ReadBuffer
  reader : ReaderPhase
  writer : WriterPhase
  status : RunStatus

namespace Connection

/-- A connection whose reader and writer are not yet at work. -/
def make (address : Address) (peerId : Identifier) (pieceCount : Nat)
    (options : ConnectionOptions) (buffer : ReadBuffer) (now : Nanoseconds) : Connection where
  address := address
  peerId := peerId
  options := options
  amChoked := true
  peerChoked := true
  amInterested := false
  peerInterested := false
  knowsPieces := false
  pieces := .empty pieceCount
  connectedAt := now
  lastReceived := now
  lastChokeChange := none
  lastInterestChange := none
  changes := 0
  queue := .make options.queueLength
  counters := {}
  cancelled := false
  buffer := buffer
  reader := .decoding
  writer := .waiting (now + options.keepAlive)
  status := .notStarted

/-- Puts the reader and the writer to work. They start only once. -/
def start (c : Connection) (now : Nanoseconds) : Connection :=
  match c.status with
  | .notStarted => { c with status := .running, writer := .waiting (now + c.options.keepAlive) }
  | _ => c

def disconnect (c : Connection) : Connection := { c with cancelled := true }

def isRunning (c : Connection) : Bool :=
  match c.status with
  | .running => true
  | _ => false

def hasEnded (c : Connection) : Bool :=
  match c.status with
  | .ended _ => true
  | _ => false

/-! ## Flags

A flag that is set to what it was changes nothing, and no time is noted. -/

def setAmChoked (c : Connection) (now : Nanoseconds) (value : Bool) : Connection :=
  if c.amChoked = value then c
  else { c with amChoked := value, lastChokeChange := some now, changes := c.changes + 1 }

def setPeerChoked (c : Connection) (now : Nanoseconds) (value : Bool) : Connection :=
  if c.peerChoked = value then c
  else { c with peerChoked := value, lastChokeChange := some now, changes := c.changes + 1 }

def setAmInterested (c : Connection) (now : Nanoseconds) (value : Bool) : Connection :=
  if c.amInterested = value then c
  else { c with amInterested := value, lastInterestChange := some now, changes := c.changes + 1 }

def setPeerInterested (c : Connection) (now : Nanoseconds) (value : Bool) : Connection :=
  if c.peerInterested = value then c
  else { c with peerInterested := value, lastInterestChange := some now, changes := c.changes + 1 }

def setPieces (c : Connection) (pieces : Bitfield) : Connection :=
  { c with pieces := pieces, knowsPieces := true, changes := c.changes + 1 }

/-- What having sent a message means for the flags. -/
def noteSent (c : Connection) (now : Nanoseconds) : Message → Connection
  | .interested => c.setAmInterested now true
  | .notInterested => c.setAmInterested now false
  | .choke => c.setPeerChoked now true
  | .unchoke => c.setPeerChoked now false
  | _ => c

def describe (c : Connection) : String :=
  "PeerWireClient \x7b addr: " ++ c.address.text ++ ", peer_id: " ++ c.peerId.hex ++ " \x7d"

end Connection

/-- What the connections of one torrent share: the channels for what they do not handle
themselves, the number of holders of each piece, and the buffers. -/
structure Hub where
  blocks : Channel Block
  uploads : Channel UploadRequest
  availability : Availability
  blockPool : BufferPool
  packetPool : BufferPool

end TorrentCore
