import TorrentCore.Geometry
import TorrentCore.Wire.Handshake
import TorrentCore.Wire.Message

/-!
# Errors

Everything that can go wrong, as causes. The wording of each cause is in one place.
-/

namespace TorrentCore

inductive HandshakeError where
  | noResponse
  | badLength (received : UInt8)
  | protocolMismatch
  | shortReserved
  | shortInfoHash
  | shortPeerId
  | unknownInfoHash (infoHash : Identifier)
  | cancelled
  | transport (cause : String)
deriving DecidableEq

def HandshakeError.message : HandshakeError → String
  | .noResponse => "no handshake received"
  | .badLength received => s!"bad protocol string length prefix {received}"
  | .protocolMismatch => "protocol string doesn't match BitTorrent v1"
  | .shortReserved => "connection closed inside the reserved bytes"
  | .shortInfoHash => "connection closed inside the info hash"
  | .shortPeerId => "connection closed inside the peer id"
  | .unknownInfoHash infoHash => "info hash " ++ infoHash.hex ++ " is not served here"
  | .cancelled => "handshake cancelled"
  | .transport cause => "transport error: " ++ cause

/-- The end of the stream in the middle of a handshake. A protocol name that was cut off never
proved to be the right one. -/
def HandshakeError.ofTruncated : HandshakeDecodeError → HandshakeError
  | .shortReserved => .shortReserved
  | .shortInfoHash => .shortInfoHash
  | .shortPeerId => .shortPeerId
  | .shortProtocolName => .protocolMismatch
  | _ => .noResponse

inductive Error where
  | handshake (cause : HandshakeError)
  | write (cause : String)
  | read (cause : String)
  | connect (cause : String)
  | timeout (activity : String)
  | peerDisconnected
  | decode (cause : DecodeError)
  | readBufferFull (missing : Nat)
  | bitfieldLength (expected received : Nat)
  | bitfieldTrailingBits
  | invalidPieceIndex (index : Nat)
  | geometry (cause : GeometryError)
  | channelClosed
  | torrentNotFound (infoHash : Identifier)
  | torrentAlreadyExists (infoHash : Identifier)
  | duplicatePeer (peerId : Identifier)
  | connectingToOurselves
  /-- The contexts of a storage failure, outermost first, and last its cause. -/
  | storage (chain : List String)
  | cancelled
deriving DecidableEq

def Error.message : Error → String
  | .handshake cause => cause.message
  | .write cause => "error writing: " ++ cause
  | .read cause => "error reading: " ++ cause
  | .connect cause => "error connecting: " ++ cause
  | .timeout activity => "timeout " ++ activity
  | .peerDisconnected => "peer disconnected"
  | .decode cause => "error deserializing message: " ++ cause.message
  | .readBufferFull missing => s!"read buffer is full. need_additional_bytes={missing}"
  | .bitfieldLength expected received =>
    s!"bitfield has unexpected size. Got {received}, expected {expected}"
  | .bitfieldTrailingBits => "bitfield has bits set past the last piece"
  | .invalidPieceIndex index => s!"invalid piece index {index}"
  | .geometry cause => cause.message
  | .channelClosed => "channel closed"
  | .torrentNotFound infoHash => "torrent " ++ infoHash.hex ++ " not found"
  | .torrentAlreadyExists infoHash => "torrent " ++ infoHash.hex ++ " already added"
  | .duplicatePeer peerId => "peer " ++ peerId.hex ++ " is already connected"
  | .connectingToOurselves => "connecting to ourselves"
  | .storage chain => "storage error: " ++ ": ".intercalate chain
  | .cancelled => "cancelled"

end TorrentCore
