import TorrentCore.Error

/-!
# Bit fields

A bit field is a set of piece indices, packed as on the wire: one bit for each piece, the highest
bit of a byte first. The bits of the last byte that belong to no piece are clear.
-/

namespace TorrentCore

/-- A packed set to be read one byte at a time, in any order. -/
structure ByteView where
  bytes : Array UInt8
deriving DecidableEq, Repr

namespace ByteView

def ofBytes (bytes : Bytes) : ByteView := ⟨bytes.toArray⟩

def size (v : ByteView) : Nat := v.bytes.size

/-- The byte at a position; past its end a packed set reads as zero. -/
def get (v : ByteView) (position : Nat) : UInt8 := v.bytes.getD position 0

end ByteView

def lastByteMask (pieceCount : Nat) : UInt8 :=
  if pieceCount % 8 = 0 then 0xff else ~~~(0xff >>> UInt8.ofNat (pieceCount % 8))

/-- The number of bytes with a bit for each piece. -/
def bitfieldLength (pieceCount : Nat) : Nat := (pieceCount + 7) / 8

/-- The bit of a piece within its byte. -/
def bitMask (index : Nat) : UInt8 := 0x80 >>> UInt8.ofNat (index % 8)

/-- The bits of a byte, the highest first. -/
def bitsOfByte (b : UInt8) : List Bool := (List.range 8).map fun i => b &&& bitMask i != 0

def onesInByte (b : UInt8) : Nat := (bitsOfByte b).count true

/-- A set of indices below `pieceCount`, packed. -/
structure Bitfield where
  pieceCount : Nat
  bytes : Bytes
deriving DecidableEq, Repr, Inhabited

namespace Bitfield

def empty (pieceCount : Nat) : Bitfield :=
  ⟨pieceCount, List.replicate (bitfieldLength pieceCount) 0⟩

def maskLast (pieceCount : Nat) (bytes : Bytes) : Bytes :=
  match bytes.getLast? with
  | some last => bytes.dropLast ++ [last &&& lastByteMask pieceCount]
  | none => []

/-- The set packed in these bytes. Bits that belong to no piece do not count. -/
def ofBytes (pieceCount : Nat) (bytes : Bytes) : Except Error Bitfield :=
  if bytes.length ≠ bitfieldLength pieceCount then
    .error (.bitfieldLength (bitfieldLength pieceCount) bytes.length)
  else .ok ⟨pieceCount, maskLast pieceCount bytes⟩

/-- Whether a received bit field fits: it has the right length, and no bit that belongs to no
piece. -/
def validate (pieceCount : Nat) (bytes : Bytes) : Except Error Unit :=
  if bytes.length ≠ bitfieldLength pieceCount then
    .error (.bitfieldLength (bitfieldLength pieceCount) bytes.length)
  else match bytes.getLast? with
    | some last =>
      if last &&& ~~~lastByteMask pieceCount ≠ 0 then .error .bitfieldTrailingBits else .ok ()
    | none => .ok ()

def overwrite (f : Bitfield) (bytes : Bytes) : Except Error Bitfield :=
  match validate f.pieceCount bytes with
  | .ok () => .ok { f with bytes := maskLast f.pieceCount bytes }
  | .error e => .error e

/-- The byte at a position, zero past the end. -/
def loadByte (f : Bitfield) (position : Nat) : UInt8 := f.bytes.getD position 0

def view (f : Bitfield) : ByteView := .ofBytes f.bytes

def contains (f : Bitfield) (index : Nat) : Bool :=
  index < f.pieceCount && f.loadByte (index / 8) &&& bitMask index != 0

/-- As `contains`, but an index past the last piece is an error. -/
def has (f : Bitfield) (index : Nat) : Except Error Bool :=
  if index < f.pieceCount then .ok (f.contains index) else .error (.invalidPieceIndex index)

def insert (f : Bitfield) (index : Nat) : Bitfield :=
  { f with bytes := f.bytes.set (index / 8) (f.loadByte (index / 8) ||| bitMask index) }

def erase (f : Bitfield) (index : Nat) : Bitfield :=
  { f with bytes := f.bytes.set (index / 8) (f.loadByte (index / 8) &&& ~~~bitMask index) }

def mark (f : Bitfield) (index : Nat) : Except Error (Bool × Bitfield) :=
  if index < f.pieceCount then .ok (!f.contains index, f.insert index)
  else .error (.invalidPieceIndex index)

def unmark (f : Bitfield) (index : Nat) : Except Error (Bool × Bitfield) :=
  if index < f.pieceCount then .ok (f.contains index, f.erase index)
  else .error (.invalidPieceIndex index)

def hasAll (f : Bitfield) : Bool :=
  match f.bytes.getLast? with
  | none => true
  | some last =>
    f.bytes.dropLast.all (· == 0xff)
      && last &&& lastByteMask f.pieceCount == lastByteMask f.pieceCount

def hasNone (f : Bitfield) : Bool := f.bytes.all (· == 0)

def count (f : Bitfield) : Nat := f.bytes.foldr (fun b n => onesInByte b + n) 0

/-- The part of all pieces that is in the set. Of no pieces, all are there. -/
def ratio (f : Bitfield) : Float :=
  if f.pieceCount = 0 then 1.0 else f.count.toFloat / f.pieceCount.toFloat

def toBools (f : Bitfield) : List Bool := (f.bytes.flatMap bitsOfByte).take f.pieceCount

def toList (f : Bitfield) : List Nat :=
  ((List.range f.pieceCount).zip f.toBools).filterMap fun (i, held) =>
    if held then some i else none

def describe (f : Bitfield) : String :=
  "Bitfield \x7b _ones: " ++ toString f.count ++ ", _len: " ++ toString f.pieceCount ++ " \x7d"

end Bitfield

end TorrentCore
