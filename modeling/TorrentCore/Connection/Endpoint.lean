import TorrentCore.Connection.State
import TorrentCore.Stream.Pipe

/-!
# Connections at work

The steps of a connection: the reader reads or applies one message, the writer takes or writes one
packet, a sender puts a packet into the queue. A step that would have to wait is no step. When the
run ends, for whatever reason, the queue is closed and emptied, all buffers go back to their pools,
the peer's pieces no longer count, and the link is let go of.
-/

namespace TorrentCore

/-- A connection with the hub of its torrent and the link to its peer. -/
structure Endpoint where
  connection : Connection
  hub : Hub
  link : Link

/-- A packet on its way into the queue, and the message in it if it was made from one. -/
structure Parcel where
  packet : Buffer
  message : Option Message
deriving DecidableEq

def Hub.pack (h : Hub) (m : Message) : Parcel × Hub :=
  let (packet, pool) := h.packetPool.takeFilled m.encode
  (⟨packet, some m⟩, { h with packetPool := pool })

def Hub.unpack (h : Hub) (p : Parcel) : Hub :=
  { h with packetPool := h.packetPool.giveBack p.packet }

/-- What comes of offering a parcel to the queue of a connection. -/
inductive Sending where
  | sent (e : Endpoint)
  | full
  /-- The connection is over or ending; the packet was given back. -/
  | refused (cause : Error) (e : Endpoint)

namespace Endpoint

def heldPackets (c : Connection) : List Buffer :=
  match c.writer with
  | .writing packet _ _ => packet :: c.queue.items
  | .waiting _ => c.queue.items

def heldBlocks (c : Connection) : List Buffer :=
  match c.reader with
  | .offeringBlock block => [block.data]
  | _ => []

/-- The run is over. -/
def finish (e : Endpoint) (result : Except Error Unit) : Endpoint where
  connection := { e.connection with
    cancelled := true
    queue := e.connection.queue.shut.2
    reader := .decoding
    writer := .waiting 0
    status := .ended result }
  hub := { e.hub with
    availability := e.hub.availability.remove e.connection.pieces
    blockPool := e.hub.blockPool.giveBackAll (heldBlocks e.connection)
    packetPool := e.hub.packetPool.giveBackAll (heldPackets e.connection) }
  link := e.link.hangUp

/-! ## Reading -/

/-- The peer has told of one piece. A piece that does not exist is passed over. -/
def applyHave (e : Endpoint) (index : Nat) : Endpoint :=
  match e.connection.pieces.mark index with
  | .ok (true, pieces) => { e with
      connection := e.connection.setPieces pieces
      hub := { e.hub with availability := e.hub.availability.increment index } }
  | .ok (false, pieces) => { e with connection := e.connection.setPieces pieces }
  | .error _ => e

/-- The peer has told of all its pieces. Nothing is counted before the set is found to fit. -/
def applyBitfield (e : Endpoint) (bits : Bytes) : Except Error Endpoint :=
  match e.connection.pieces.overwrite bits with
  | .ok pieces => .ok { e with
      connection := e.connection.setPieces pieces
      hub := { e.hub with
        availability := (e.hub.availability.remove e.connection.pieces).add pieces } }
  | .error cause => .error cause

def applyPiece (e : Endpoint) (index offset : UInt32) (bytes : Bytes) : Endpoint :=
  let (data, pool) := e.hub.blockPool.takeFilled bytes
  let block : Block := ⟨e.connection.peerId, index.toNat, offset.toNat, data⟩
  { e with
    connection := { e.connection with
      counters := e.connection.counters.blockReceived bytes.length
      reader := .offeringBlock block }
    hub := { e.hub with blockPool := pool } }

def applyUpload (e : Endpoint) (kind : UploadKind) (r : BlockRequest) : Endpoint :=
  { e with connection := { e.connection with
      reader := .offeringUpload ⟨e.connection.peerId, kind, r⟩ } }

def apply (e : Endpoint) (now : Nanoseconds) : Message → Except Error Endpoint
  | .keepAlive => .ok e
  | .choke => .ok { e with connection := e.connection.setAmChoked now true }
  | .unchoke => .ok { e with connection := e.connection.setAmChoked now false }
  | .interested => .ok { e with connection := e.connection.setPeerInterested now true }
  | .notInterested => .ok { e with connection := e.connection.setPeerInterested now false }
  | .has index => .ok (e.applyHave index.toNat)
  | .bitfield bits => e.applyBitfield bits
  | .request r => .ok (e.applyUpload .request r)
  | .cancel r => .ok (e.applyUpload .cancel r)
  | .piece index offset bytes => .ok (e.applyPiece index offset bytes)

/-- The reader has handed over what it held. -/
def readOn (e : Endpoint) : Endpoint :=
  { e with connection := { e.connection with reader := .decoding } }

/-- The next step of the reader. -/
def receive? (now : Nanoseconds) (e : Endpoint) : Option Endpoint :=
  let c := e.connection
  if !c.isRunning then none
  else match c.reader with
    | .decoding => match c.buffer.message c.options.maxMessage with
      | .item m rest =>
        let e := { e with connection := { c with buffer := rest, lastReceived := now } }
        match e.apply now m with
        | .ok e => some e
        | .error cause => some (e.finish (.error cause))
      | .failed cause _ => some (e.finish (.error cause))
      | .more buffer => some { e with connection := { c with
          buffer := buffer, reader := .reading (now + c.options.readTimeout) } }
    | .reading deadline => match e.link.incoming.read? c.buffer.room with
      | some (.failed cause, _) => some (e.finish (.error (.read cause)))
      | some (.ended, _) | some (.data [], _) => some (e.finish (.error .peerDisconnected))
      | some (.data bytes, incoming) => some { e with
          connection := { c with buffer := c.buffer.receive bytes, reader := .decoding }
          link := { e.link with incoming := incoming } }
      | none =>
        if deadline.ceilMilliseconds ≤ now then some (e.finish (.error (.timeout "reading")))
        else none
    | .offeringBlock block => match e.hub.blocks.offer block with
      | .accepted blocks => some { e.readOn with hub := { e.hub with blocks := blocks } }
      | .full => none
      | .refused => some (e.finish (.error .channelClosed))
    | .offeringUpload request => match e.hub.uploads.offer request with
      | .accepted uploads => some { e.readOn with hub := { e.hub with uploads := uploads } }
      | .full => none
      | .refused => some (e.finish (.error .channelClosed))

/-! ## Writing -/

def beginWriting (e : Endpoint) (now : Nanoseconds) (packet : Buffer) : Endpoint :=
  { e with connection := { e.connection with
      writer := .writing packet packet.bytes (now + e.connection.options.writeTimeout) } }

/-- The next step of the writer. -/
def transmit? (now : Nanoseconds) (e : Endpoint) : Option Endpoint :=
  let c := e.connection
  if !c.isRunning then none
  else match c.writer with
    | .waiting keepAlive => match c.queue.take? with
      | some (packet, queue) =>
        some (beginWriting { e with connection := { c with queue := queue } } now packet)
      | none =>
        if keepAlive.ceilMilliseconds ≤ now then
          let (parcel, hub) := e.hub.pack .keepAlive
          some (beginWriting { e with hub := hub } now parcel.packet)
        else none
    | .writing packet [] _ => some { e with
        connection := { c with writer := .waiting (now + c.options.keepAlive) }
        hub := { e.hub with packetPool := e.hub.packetPool.giveBack packet } }
    | .writing packet rest deadline => match e.link.outgoing.write? rest with
      | none => some (e.finish (.error (.write Pipe.brokenCause)))
      | some (left, outgoing) =>
        if left.length < rest.length then some { e with
          connection := { c with writer := .writing packet left deadline }
          link := { e.link with outgoing := outgoing } }
        else if deadline.ceilMilliseconds ≤ now then
          some (e.finish (.error (.timeout "writing")))
        else none

/-! ## Ending and sending -/

/-- A connection that was told to end does so. -/
def stop? (e : Endpoint) : Option Endpoint :=
  if e.connection.isRunning && e.connection.cancelled then some (e.finish (.ok ())) else none

/-- Offers a parcel to the queue. Flags change once it has been accepted. Who sends waits for a
place and for the end of the connection at once, and either may be noticed first where there are
both: a `late` parcel notices its place. -/
def send (e : Endpoint) (now : Nanoseconds) (late : Bool) (p : Parcel) : Sending :=
  if e.connection.cancelled && !late then .refused .cancelled { e with hub := e.hub.unpack p }
  else match e.connection.queue.offer p.packet with
    | .accepted queue =>
      let c := { e.connection with queue := queue }
      .sent { e with connection := match p.message with
        | some m => c.noteSent now m
        | none => c }
    | .full =>
      if e.connection.cancelled then .refused .cancelled { e with hub := e.hub.unpack p } else .full
    | .refused => .refused .channelClosed { e with hub := e.hub.unpack p }

def timer? (c : Connection) : Option Nanoseconds :=
  if !c.isRunning then none
  else
    let reader := match c.reader with
      | .reading deadline => some deadline
      | _ => none
    let writer := match c.writer with
      | .waiting keepAlive => keepAlive
      | .writing _ _ deadline => deadline
    match reader with
    | some deadline => some (min deadline writer)
    | none => some writer

end Endpoint

end TorrentCore
