import TorrentCore.Buffer.Pool
import TorrentCore.Digest.Sha1
import TorrentCore.Identifier

/-!
# Assembling pieces

The blocks of a piece come in any order. An assembler has one slot for each block and takes the
first fitting block for each slot. Once all slots are filled the blocks are handed over, in order,
as the assembled piece; they are never joined into one byte string of their own.
-/

namespace TorrentCore

/-- A received block, in a buffer from the pool of received blocks. -/
structure Block where
  sender : Identifier
  piece : Nat
  offset : Nat
  data : Buffer
deriving DecidableEq

def Block.describe (b : Block) : String :=
  "Block \x7b peer_id: " ++ b.sender.hex ++ ", piece_index: " ++ toString b.piece ++ ", begin: "
    ++ toString b.offset ++ ", len: " ++ toString b.data.bytes.length ++ " \x7d"

structure AssembledPiece where
  piece : Nat
  length : Nat
  blocks : List Buffer
deriving DecidableEq

namespace AssembledPiece

def isEmpty (p : AssembledPiece) : Bool := p.length == 0

def bytes (p : AssembledPiece) : Bytes := (p.blocks.map Buffer.bytes).flatten

def verify (p : AssembledPiece) (expected : Identifier) : Bool :=
  Sha1.ofParts (p.blocks.map Buffer.bytes) == expected.bytes

/-- Walks over blocks: passes over `skip` bytes and then takes at most `room`. -/
def gather : List Buffer → Nat → Nat → Bytes
  | [], _, _ => []
  | b :: rest, skip, room =>
    if room = 0 then []
    else if b.bytes.length ≤ skip then gather rest (skip - b.bytes.length) room
    else
      let part := (b.bytes.drop skip).take room
      part ++ gather rest 0 (room - part.length)

/-- Copies the bytes from `offset` on over the front of `out`, as many as there are and fit.
Gives their number and the new contents. -/
def writeRange (p : AssembledPiece) (offset : Nat) (out : Bytes) : Nat × Bytes :=
  let copied := gather p.blocks offset out.length
  (copied.length, copied ++ out.drop copied.length)

/-- Writes the blocks one after the other into a space of `room` bytes. Gives what was written,
and whether that is all of the piece. -/
def writeInto (p : AssembledPiece) (room : Nat) : Bool × Bytes :=
  let written := gather p.blocks 0 room
  (decide (p.bytes.length ≤ room), written)

def describe (p : AssembledPiece) : String :=
  "AssembledPiece \x7b piece_index: " ++ toString p.piece ++ ", len: " ++ toString p.length
    ++ ", blocks: " ++ toString p.blocks.length ++ " \x7d"

end AssembledPiece

structure Assembler where
  piece : Nat
  length : Nat
  blockSize : Nat
  slots : List (Option Buffer)
  received : Nat
  completed : Bool
deriving DecidableEq

namespace Assembler

/-- No slot is filled. Blocks of length zero count as blocks of length one. -/
def make (piece length blockSize : Nat) : Assembler :=
  let blockSize := max blockSize 1
  { piece := piece
    length := length
    blockSize := blockSize
    slots := List.replicate ((length + blockSize - 1) / blockSize) none
    received := 0
    completed := false }

/-- How many blocks the piece has. After completion there are no slots left. -/
def expected (a : Assembler) : Nat := a.slots.length

def slotLength (a : Assembler) (slot : Nat) : Nat :=
  min (a.length - slot * a.blockSize) a.blockSize

/-- Whether a block fits: it is of this piece, begins where a slot begins, has that slot's length,
and the slot is empty. Lengths are compared as they are and not as words, which comes to the same: a
block is read from a message whose length is a word, so it is itself shorter than `2 ^ 32` bytes
(`word_length_eq_iff`). -/
def accepts (a : Assembler) (b : Block) : Bool :=
  !a.completed && b.piece == a.piece && b.offset % a.blockSize == 0
    && b.offset / a.blockSize < a.expected
    && b.data.bytes.length == a.slotLength (b.offset / a.blockSize)
    && (a.slots.getD (b.offset / a.blockSize) none).isNone

def add? (a : Assembler) (b : Block) : Option Assembler :=
  if a.accepts b then
    some { a with
      slots := a.slots.set (b.offset / a.blockSize) (some b.data)
      received := a.received + 1 }
  else none

/-- All slots are filled. Nothing is said about the digest. -/
def isComplete (a : Assembler) : Bool := !a.completed && a.received == a.expected

/-- Moves the blocks out of the slots, once. Should one of the slots turn out to be empty, nothing
is handed over and the other blocks are gone. -/
def complete (a : Assembler) : Option AssembledPiece × Assembler :=
  if a.isComplete then
    ((a.slots.mapM id).map fun blocks => ⟨a.piece, a.length, blocks⟩,
      { a with slots := [], completed := true })
  else (none, a)

def complete? (a : Assembler) : Option (AssembledPiece × Assembler) :=
  a.complete.1.map fun piece => (piece, a.complete.2)

def held (a : Assembler) : List Buffer := a.slots.filterMap id

end Assembler

/-- An assembler that takes blocks from one peer only, its owner. The owner changes when the piece
is asked from another peer. -/
structure PieceBuffer where
  owner : Identifier
  assembler : Assembler
deriving DecidableEq

namespace PieceBuffer

def make (owner : Identifier) (piece length blockSize : Nat) : PieceBuffer :=
  ⟨owner, Assembler.make piece length blockSize⟩

def add? (p : PieceBuffer) (b : Block) : Option PieceBuffer :=
  if b.sender ≠ p.owner then none
  else (p.assembler.add? b).map fun a => { p with assembler := a }

def isComplete (p : PieceBuffer) : Bool := p.assembler.isComplete

def complete (p : PieceBuffer) : Option AssembledPiece × PieceBuffer :=
  (p.assembler.complete.1, { p with assembler := p.assembler.complete.2 })

def complete? (p : PieceBuffer) : Option (AssembledPiece × PieceBuffer) :=
  p.assembler.complete?.map fun (piece, a) => (piece, { p with assembler := a })

end PieceBuffer

end TorrentCore
