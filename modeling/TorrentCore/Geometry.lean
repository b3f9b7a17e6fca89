/-!
# The geometry of a torrent

A torrent is one long byte string, cut into pieces of one length and a last piece that may be
shorter. Pieces are transferred in blocks, cut the same way. Lengths and offsets are machine words,
thirty-two bits inside a piece and sixty-four across the torrent.
-/

namespace TorrentCore

def defaultBlockLength : UInt32 := 16384

def defaultMaxRequest : UInt32 := 131072

def ceilDiv (a b : UInt64) : UInt64 := if a % b = 0 then a / b else a / b + 1

/-- The size of the last of the elements that `total` is cut into. -/
def lastElementSize (total element : UInt64) : UInt64 :=
  if total % element = 0 then element else total % element

/-- Why three lengths are no geometry, an index names no piece, or hashes do not fit. -/
inductive GeometryError where
  | zeroLength
  | zeroPieceLength
  | blockLengthNotPowerOfTwo (blockLength : UInt32)
  | tooManyPieces
  | invalidPieceIndex (index : UInt32)
  | hashesNotWhole (length : Nat)
  | hashCount (expected : UInt32) (actual : Nat)
deriving DecidableEq, Repr

def GeometryError.message : GeometryError → String
  | .zeroLength => "torrent with 0 length is useless"
  | .zeroPieceLength => "piece length must be > 0"
  | .blockLengthNotPowerOfTwo blockLength => s!"block length {blockLength} is not a power of 2"
  | .tooManyPieces => "torrent has too many pieces"
  | .invalidPieceIndex index => s!"invalid piece index {index}"
  | .hashesNotWhole length => s!"piece hashes length {length} is not a multiple of 20"
  | .hashCount expected actual => s!"expected hashes for {expected} pieces, got {actual}"

structure PieceIndex where
  val : UInt32
deriving DecidableEq, Repr

structure BlockInfo where
  piece : PieceIndex
  block : UInt32
  offset : UInt32
  size : UInt32
deriving DecidableEq, Repr

/-- How a torrent is cut into pieces and its pieces into blocks. -/
structure Geometry where
  totalLength : UInt64
  /-- The length of every piece but the last. -/
  pieceLength : UInt32
  blockLength : UInt32
  lastPiece : UInt32
  lastPieceLength : UInt32
  maxBlocksPerPiece : UInt32
deriving DecidableEq, Repr

namespace Geometry

def isPowerOfTwo (w : UInt64) : Bool := w != 0 && (w &&& (w - 1)) == 0

/-- The geometry of these lengths. Blocks are never longer than pieces. -/
def make (totalLength : UInt64) (pieceLength : UInt32) (blockLength : UInt32) :
    Except GeometryError Geometry :=
  if totalLength = 0 then .error .zeroLength
  else if pieceLength = 0 then .error .zeroPieceLength
  else if !isPowerOfTwo blockLength.toUInt64 then .error (.blockLengthNotPowerOfTwo blockLength)
  else
    let block := min blockLength pieceLength
    let pieces := ceilDiv totalLength pieceLength.toUInt64
    if 4294967295 < pieces then .error .tooManyPieces
    else .ok {
      totalLength := totalLength
      pieceLength := pieceLength
      blockLength := block
      lastPiece := pieces.toUInt32 - 1
      lastPieceLength := (lastElementSize totalLength pieceLength.toUInt64).toUInt32
      maxBlocksPerPiece := (ceilDiv pieceLength.toUInt64 block.toUInt64).toUInt32 }

def pieceCount (g : Geometry) : UInt32 := g.lastPiece + 1

def bitfieldBytes (g : Geometry) : UInt64 := ceilDiv g.pieceCount.toUInt64 8

def piece? (g : Geometry) (index : UInt32) : Option PieceIndex :=
  if g.lastPiece < index then none else some ⟨index⟩

/-- As `piece?`, with the reason. -/
def piece (g : Geometry) (index : UInt32) : Except GeometryError PieceIndex :=
  match g.piece? index with
  | some p => .ok p
  | none => .error (.invalidPieceIndex index)

def lengthOf (g : Geometry) (p : PieceIndex) : UInt32 :=
  if p.val = g.lastPiece then g.lastPieceLength else g.pieceLength

def offsetOf (g : Geometry) (p : PieceIndex) : UInt64 := p.val.toUInt64 * g.pieceLength.toUInt64

def blocksIn (g : Geometry) (p : PieceIndex) : UInt32 :=
  (ceilDiv (g.lengthOf p).toUInt64 g.blockLength.toUInt64).toUInt32

/-- The size of one block of a piece, if the piece has that many. -/
def blockSize? (g : Geometry) (p : PieceIndex) (block : UInt32) : Option UInt32 :=
  if g.blocksIn p ≤ block then none
  else some (min g.blockLength (g.lengthOf p - block * g.blockLength))

/-- A walk over the blocks of a piece: the block that comes next, where it begins, and how much
of the piece is left from there on. -/
structure Cursor where
  piece : PieceIndex
  block : UInt32
  offset : UInt32
  remaining : UInt32
deriving DecidableEq, Repr

def start (g : Geometry) (p : PieceIndex) : Cursor := ⟨p, 0, 0, g.lengthOf p⟩

/-- The next block and the walk after it. -/
def next? (g : Geometry) (c : Cursor) : Option (BlockInfo × Cursor) :=
  if c.remaining = 0 then none
  else
    let size := min c.remaining g.blockLength
    some (⟨c.piece, c.block, c.offset, size⟩,
      ⟨c.piece, c.block + 1, c.offset + size, c.remaining - size⟩)

def walk (g : Geometry) : Nat → Cursor → List BlockInfo
  | 0, _ => []
  | limit + 1, c =>
    match g.next? c with
    | some (info, rest) => info :: g.walk limit rest
    | none => []

def firstBlocks (g : Geometry) (p : PieceIndex) (limit : Nat) : List BlockInfo :=
  g.walk limit (g.start p)

/-- The blocks of a piece, in order. A block is never empty, so the length of the piece bounds
their number. -/
def blocks (g : Geometry) (p : PieceIndex) : List BlockInfo :=
  g.firstBlocks p (g.lengthOf p).toNat

/-- The block that a received index, offset and length describe: the piece exists, the offset is
where a block begins, and the length is that block's. -/
def received? (g : Geometry) (index offset length : UInt32) : Option BlockInfo :=
  match g.piece? index with
  | none => none
  | some p =>
    if offset % g.blockLength ≠ 0 then none
    else
      let block := offset / g.blockLength
      match g.blockSize? p block with
      | none => none
      | some size => if size = length then some ⟨p, block, offset, length⟩ else none

end Geometry

end TorrentCore
