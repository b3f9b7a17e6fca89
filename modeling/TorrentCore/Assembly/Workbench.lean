import TorrentCore.Storage

/-!
# A workbench for one piece

A pool of buffers, the slots of one piece, and the piece that was put together last. A block that
is refused goes back to the pool at once; the blocks of a piece go back when the piece is dropped or
a later one takes its place.
-/

namespace TorrentCore

/-- The pool, the slots, who may fill them, and the finished piece. -/
structure Workbench where
  pool : BufferPool
  assembler : Assembler
  /-- If there is an owner, only its blocks are taken. -/
  owner : Option Identifier
  kept : Option AssembledPiece

namespace Workbench

def make (pool : BufferPool) (owner : Option Identifier) (piece length blockSize : Nat) :
    Workbench :=
  ⟨pool, .make piece length blockSize, owner, none⟩

def accept? (w : Workbench) (b : Block) : Option Assembler :=
  match w.owner with
  | some owner => ((PieceBuffer.mk owner w.assembler).add? b).map PieceBuffer.assembler
  | none => w.assembler.add? b

/-- Takes a buffer with these bytes and offers it as a block. Tells whether it was accepted. -/
def offer (w : Workbench) (sender : Identifier) (piece offset : Nat) (bytes : Bytes) :
    Bool × Block × Workbench :=
  let (data, pool) := w.pool.takeFilled bytes
  let block : Block := ⟨sender, piece, offset, data⟩
  match w.accept? block with
  | some assembler => (true, block, { w with pool := pool, assembler := assembler })
  | none => (false, block, { w with pool := pool.giveBack data })

def complete? (w : Workbench) : Option (AssembledPiece × Workbench) :=
  w.assembler.complete?.map fun (piece, assembler) =>
    (piece, { w with
      assembler := assembler
      kept := some piece
      pool := w.pool.giveBackAll ((w.kept.map AssembledPiece.blocks).getD []) })

def dropPiece (w : Workbench) : Workbench :=
  { w with
    kept := none
    pool := w.pool.giveBackAll ((w.kept.map AssembledPiece.blocks).getD []) }

end Workbench

end TorrentCore
