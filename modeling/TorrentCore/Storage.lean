import TorrentCore.Assembly

/-!
# Storage

Verified pieces are written to, and uploads read from, one byte string as long as the torrent. A
range that does not fit is refused as a whole and changes nothing.
-/

namespace TorrentCore

/-- The whole torrent in memory. -/
structure Storage where
  bytes : Bytes
deriving DecidableEq

inductive StorageError where
  | offsetOverflow
  | outOfBounds (start stop total : Nat)
  | shortWrite (written length : Nat)
deriving DecidableEq, Repr

def StorageError.message : StorageError → String
  | .offsetOverflow => "offset overflow"
  | .outOfBounds start stop total =>
    s!"range {start}..{stop} out of bounds, storage length is {total}"
  | .shortWrite written length => s!"short piece write: {written} of {length}"

namespace Storage

/-- The position past the last byte of a range, if the range lies in the storage. -/
def stop (s : Storage) (offset length : Nat) : Except StorageError Nat :=
  if 18446744073709551616 ≤ offset + length then .error .offsetOverflow
  else if s.bytes.length < offset + length then
    .error (.outOfBounds offset (offset + length) s.bytes.length)
  else .ok (offset + length)

def writePiece (s : Storage) (offset : Nat) (p : AssembledPiece) :
    Except StorageError Storage :=
  match s.stop offset p.length with
  | .error e => .error e
  | .ok _ =>
    let (written, block) := p.writeRange 0 (s.bytes.slice offset p.length)
    if written ≠ p.length then .error (.shortWrite written p.length)
    else .ok ⟨s.bytes.overwrite offset block⟩

def read (s : Storage) (offset length : Nat) : Except StorageError Bytes :=
  match s.stop offset length with
  | .error e => .error e
  | .ok _ => .ok (s.bytes.slice offset length)

end Storage

end TorrentCore
