import TorrentCore.Assembly
import TorrentCore.Availability
import TorrentCore.Counters
import TorrentCore.Selection
import TorrentCore.Settings.Value

/-!
# Reports

What the things of this library look like in a document, for display and for logs. A report has
one word for each kind of failure beside the text, so that a reader need not take the text apart.
-/

namespace TorrentCore

/-- Byte strings in digits; a long one by its length, its digest and its first bytes. -/
def Bytes.report (b : Bytes) : Value :=
  if b.length ≤ 256 then b.hex
  else .record [("len", b.length), ("sha1", Bytes.hex (Sha1.digest b)),
    ("head", Bytes.hex (b.take 16))]

/-- Large numbers are reported as texts, which no reader rounds. -/
def reportLarge (n : Nat) : Value := toString n

def reportFailure (kind message : String) : Value :=
  .record [("error", kind), ("message", message)]

namespace GeometryError

def kind : GeometryError → String
  | zeroLength => "ZeroLength"
  | zeroPieceLength => "ZeroPieceLength"
  | blockLengthNotPowerOfTwo _ => "BlockLengthNotPowerOfTwo"
  | tooManyPieces => "TooManyPieces"
  | invalidPieceIndex _ => "InvalidPieceIndex"
  | hashesNotWhole _ => "PieceHashesNotMultipleOf20"
  | hashCount _ _ => "PieceHashesCountMismatch"

def report (e : GeometryError) : Value := reportFailure e.kind e.message

end GeometryError

namespace DecodeError

def kind : DecodeError → String
  | notEnough _ _ => "NotEnoughData"
  | unsupported _ _ => "UnsupportedMessageId"
  | wrongLength _ _ _ => "IncorrectLenPrefix"
  | tooLong _ _ => "MessageTooLong"

def report (e : DecodeError) : Value := reportFailure e.kind e.message

end DecodeError

namespace HandshakeDecodeError

def kind : HandshakeDecodeError → String
  | empty => "Empty"
  | badLength _ => "BadLengthPrefix"
  | protocolMismatch => "ProtocolMismatch"
  | shortProtocolName => "ShortProtocolString"
  | shortReserved => "ShortReserved"
  | shortInfoHash => "ShortInfoHash"
  | shortPeerId => "ShortPeerId"

def report (e : HandshakeDecodeError) : Value := reportFailure e.kind e.message

end HandshakeDecodeError

namespace HandshakeError

def kind : HandshakeError → String
  | noResponse => "NoResponse"
  | badLength _ => "BadLengthPrefix"
  | protocolMismatch => "ProtocolMismatch"
  | shortReserved => "ShortReserved"
  | shortInfoHash => "ShortInfoHash"
  | shortPeerId => "ShortPeerId"
  | unknownInfoHash _ => "UnknownInfoHash"
  | cancelled => "Cancelled"
  | transport _ => "Transport"

def report (e : HandshakeError) : Value := reportFailure e.kind e.message

end HandshakeError

namespace Error

/-- The word for a nested cause names the layer it comes from. -/
def kind : Error → String
  | handshake cause => "Handshake." ++ cause.kind
  | write _ => "Write"
  | read _ => "Read"
  | connect _ => "Connect"
  | timeout _ => "Timeout"
  | peerDisconnected => "PeerDisconnected"
  | decode cause => "Deserialize." ++ cause.kind
  | readBufferFull _ => "ReadBufFull"
  | bitfieldLength _ _ => "BitfieldLength"
  | bitfieldTrailingBits => "BitfieldTrailingBits"
  | invalidPieceIndex _ => "InvalidPieceIndex"
  | geometry cause => "Core." ++ cause.kind
  | channelClosed => "ChannelClosed"
  | torrentNotFound _ => "TorrentNotFound"
  | torrentAlreadyExists _ => "TorrentAlreadyExists"
  | duplicatePeer _ => "DuplicatePeer"
  | connectingToOurselves => "ConnectingToOurselves"
  | storage _ => "Storage"
  | cancelled => "Cancelled"

def report (e : Error) : Value := reportFailure e.kind e.message

end Error

def reportResult {α : Type} (shown : α → Value) : Except Error α → Value
  | .ok a => shown a
  | .error e => e.report

def Handshake.report (h : Handshake) : Value :=
  .record [("reserved", h.reserved.report), ("info_hash", h.infoHash.hex),
    ("peer_id", h.peerId.hex), ("extended", h.supportsExtended), ("dht", h.supportsDht)]

def Message.report (m : Message) : Value :=
  let fields : List (String × Value) := match m with
    | .has index => [("index", index.toNat)]
    | .bitfield bits => [("bits", bits.report)]
    | .request r | .cancel r =>
      [("index", r.index.toNat), ("begin", r.offset.toNat), ("length", r.length.toNat)]
    | .piece index offset block =>
      [("index", index.toNat), ("begin", offset.toNat), ("block", block.report)]
    | _ => []
  .record (("t", m.name) :: fields)

def BlockInfo.report (b : BlockInfo) : Value :=
  .record [("piece", b.piece.val.toNat), ("block", b.block.toNat), ("offset", b.offset.toNat),
    ("size", b.size.toNat)]

def BufferPool.report (p : BufferPool) : Value :=
  .record [("available", p.available), ("outstanding", p.outstanding),
    ("allocations", p.allocations)]

def Availability.report (a : Availability) : Value :=
  .ofList (fun count : UInt32 => count.toNat) a.counts

def PeerCounters.report (c : PeerCounters) : Value :=
  .record [("fetched_bytes", c.fetchedBytes.toNat), ("fetched_blocks", c.fetchedBlocks.toNat),
    ("uploaded_bytes", c.uploadedBytes.toNat), ("uploaded_blocks", c.uploadedBlocks.toNat),
    ("discarded_blocks", c.discardedBlocks.toNat)]

/-- The counters of a torrent with the number of its peers. Times depend on the machine and are
left out. -/
def TorrentCounters.report (c : TorrentCounters) (peers : Nat) : List (String × Value) :=
  [("verified_pieces", c.verifiedPieces.toNat), ("verified_bytes", c.verifiedBytes.toNat),
    ("hash_failures", c.hashFailures.toNat), ("fetched_bytes", c.fetchedBytes.toNat),
    ("uploaded_bytes", c.uploadedBytes.toNat), ("connected_peers", peers)]

def Suggestion.report : Suggestion → String
  | .piece index => s!"Piece({index})"
  | .noneAvailable => "NoneAvailable"
  | .complete => "Complete"

end TorrentCore
