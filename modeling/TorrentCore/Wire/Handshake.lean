import TorrentCore.Identifier

/-!
# Handshakes

Each side of a new connection first sends a handshake of sixty-eight bytes: the length and the name
of the protocol, eight reserved bytes with one bit for each extension, the info hash of the torrent
and the peer identifier of the sender.
-/

namespace TorrentCore

def protocolName : Bytes := Bytes.ofText "BitTorrent protocol"

def handshakeLength : Nat := 68

structure Handshake where
  reserved : Bytes
  length_reserved : reserved.length = 8
  infoHash : Identifier
  peerId : Identifier
deriving DecidableEq

/-- Why the front of a byte string is no handshake. Where it is too short, the part that is cut
off. -/
inductive HandshakeDecodeError where
  | empty
  | badLength (received : UInt8)
  | protocolMismatch
  | shortProtocolName
  | shortReserved
  | shortInfoHash
  | shortPeerId
deriving DecidableEq, Repr

def HandshakeDecodeError.message : HandshakeDecodeError → String
  | .empty => "no handshake bytes received"
  | .badLength received => s!"protocol string length should be 19, but received {received}"
  | .protocolMismatch => "protocol string doesn't match BitTorrent v1"
  | .shortProtocolName => "handshake truncated inside the protocol string"
  | .shortReserved => "handshake truncated inside the reserved bytes"
  | .shortInfoHash => "handshake truncated inside the info hash"
  | .shortPeerId => "handshake truncated inside the peer id"

namespace Handshake

def plain (infoHash peerId : Identifier) : Handshake :=
  ⟨List.replicate 8 0, rfl, infoHash, peerId⟩

/-- The handshake with other reserved bytes, cut off or filled up with zeros to eight. -/
def withReserved (h : Handshake) (bits : Bytes) : Handshake :=
  { h with
    reserved := (bits ++ List.replicate 8 0).take 8
    length_reserved := by simp }

def supportsExtended (h : Handshake) : Bool := h.reserved.getD 5 0 &&& 0x10 != 0

def supportsDht (h : Handshake) : Bool := h.reserved.getD 7 0 &&& 0x01 != 0

def encode (h : Handshake) : Bytes :=
  19 :: (protocolName ++ h.reserved ++ h.infoHash.bytes ++ h.peerId.bytes)

/-- Reads the handshake at the front. What is there of the protocol name is checked even if the
rest is missing. -/
def decode : Bytes → Except HandshakeDecodeError Handshake
  | [] => .error .empty
  | length :: rest =>
    if length ≠ 19 then .error (.badLength length)
    else
      let name := rest.take 19
      if name ≠ protocolName.take name.length then .error .protocolMismatch
      else if name.length < 19 then .error .shortProtocolName
      else
        let reserved := Bytes.slice rest 19 8
        if length_reserved : reserved.length = 8 then
          match Identifier.ofBytes? (Bytes.slice rest 27 20) with
          | none => .error .shortInfoHash
          | some infoHash => match Identifier.ofBytes? (Bytes.slice rest 47 20) with
            | none => .error .shortPeerId
            | some peerId => .ok ⟨reserved, length_reserved, infoHash, peerId⟩
        else .error .shortReserved

end Handshake

end TorrentCore
