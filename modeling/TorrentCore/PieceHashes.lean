import TorrentCore.Geometry
import TorrentCore.Identifier

/-!
# Expected digests

The digests of all pieces come as one byte string, twenty bytes for each piece in order.
-/

namespace TorrentCore

/-- The expected digest of every piece, joined together. -/
structure PieceHashes where
  bytes : Bytes
deriving DecidableEq

namespace PieceHashes

def make (bytes : Bytes) (g : Geometry) : Except GeometryError PieceHashes :=
  if bytes.length % 20 ≠ 0 then .error (.hashesNotWhole bytes.length)
  else if bytes.length / 20 ≠ g.pieceCount.toNat then
    .error (.hashCount g.pieceCount (bytes.length / 20))
  else .ok ⟨bytes⟩

def size (h : PieceHashes) : Nat := h.bytes.length / 20

def isEmpty (h : PieceHashes) : Bool := h.bytes.isEmpty

/-- The digest of a piece, which may be one of another geometry. -/
def get? (h : PieceHashes) (p : PieceIndex) : Option Identifier :=
  Identifier.ofBytes? (h.bytes.slice (p.val.toNat * 20) 20)

def describe (h : PieceHashes) : String := s!"<{h.size} piece hashes>"

end PieceHashes

end TorrentCore
