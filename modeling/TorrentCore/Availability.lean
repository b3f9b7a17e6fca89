import TorrentCore.Bitfield

/-!
# Availability

For every piece, how many connected peers are known to have it. The rarest pieces are fetched
first. Counts are words; a count of zero is not lowered.
-/

namespace TorrentCore

/-- The number of holders of each piece. -/
structure Availability where
  counts : List UInt32
deriving DecidableEq, Repr, Inhabited

namespace Availability

def zero (pieceCount : Nat) : Availability := ⟨List.replicate pieceCount 0⟩

/-- The number of holders of a piece; pieces that do not exist have none. -/
def get (a : Availability) (index : Nat) : UInt32 := a.counts.getD index 0

def lower (n : UInt32) : UInt32 := if n = 0 then 0 else n - 1

/-- One more peer has this piece; nothing happens if there is no such piece. -/
def increment (a : Availability) (index : Nat) : Availability :=
  ⟨a.counts.modify index (· + 1)⟩

def decrement (a : Availability) (index : Nat) : Availability :=
  ⟨a.counts.modify index lower⟩

def adjust (change : UInt32 → UInt32) (a : Availability) (pieces : Bitfield) : Availability :=
  ⟨a.counts.zipWith (fun n held => if held then change n else n)
    (pieces.toBools ++ List.replicate (a.counts.length - pieces.toBools.length) false)⟩

/-- A peer with these pieces has come, or tells of them. -/
def add (a : Availability) (pieces : Bitfield) : Availability := adjust (· + 1) a pieces

/-- A peer with these pieces has gone. -/
def remove (a : Availability) (pieces : Bitfield) : Availability := adjust lower a pieces

def describe (a : Availability) : String := s!"<availability of {a.counts.length} pieces>"

end Availability

end TorrentCore
