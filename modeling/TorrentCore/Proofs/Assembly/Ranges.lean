import TorrentCore.Proofs.Blocks

/-!
# Ranges of an assembled piece

The blocks of an assembled piece are never joined, but every range of it is copied as if they were.
Copying walks over the blocks with two counters, how much is still to be passed over and how much
was written. `copyRange?` is that walk with every index checked: it never fails, and it is what
`writeRange` gives. So ranges that follow one another put the whole piece together.
-/

namespace TorrentCore

namespace AssembledPiece

/-- Where copying stands: how many bytes are still to be passed over, how many were written, and
what the space that is written to holds. -/
structure Copying where
  skip : Nat
  written : Nat
  out : Bytes

def copyBlock? (block : Bytes) (c : Copying) : Option Copying := do
  let source ← block.between? c.skip block.length
  let space ← c.out.between? c.written c.out.length
  let count := min source.length space.length
  let part ← source.between? 0 count
  let out ← c.out.replace? c.written (c.written + count) part
  some ⟨0, c.written + count, out⟩

def copyBlocks? : List Buffer → Copying → Option Copying
  | [], c => some c
  | block :: rest, c =>
    if c.written = c.out.length then some c
    else if block.bytes.length ≤ c.skip then
      copyBlocks? rest { c with skip := c.skip - block.bytes.length }
    else (copyBlock? block.bytes c).bind (copyBlocks? rest)

/-- Copies a range, and fails if a position that it uses is out of bounds. -/
def copyRange? (p : AssembledPiece) (offset : Nat) (out : Bytes) : Option (Nat × Bytes) :=
  (copyBlocks? p.blocks ⟨offset, 0, out⟩).map fun c => (c.written, c.out)

theorem copyBlock?_eq {block : Bytes} {c : Copying} (hskip : c.skip ≤ block.length)
    (hwritten : c.written ≤ c.out.length) :
    copyBlock? block c = some ⟨0,
      c.written + ((block.drop c.skip).take (c.out.length - c.written)).length,
      c.out.overwrite c.written ((block.drop c.skip).take (c.out.length - c.written))⟩ := by
  have hspace_length : (c.out.drop c.written).length = c.out.length - c.written := List.length_drop
  have hsource : block.between? c.skip block.length = some (block.drop c.skip) :=
    Bytes.between?_length hskip
  have hspace : c.out.between? c.written c.out.length = some (c.out.drop c.written) :=
    Bytes.between?_length hwritten
  have hpart : Bytes.between? (block.drop c.skip) 0
      (min (block.drop c.skip).length (c.out.length - c.written))
      = some ((block.drop c.skip).take (c.out.length - c.written)) := by
    rw [Bytes.between?, if_pos ⟨Nat.zero_le _, Nat.min_le_left _ _⟩, Bytes.slice, List.drop_zero,
      Nat.sub_zero, Nat.min_comm, ← List.take_take, List.take_length]
  have hlength : ((block.drop c.skip).take (c.out.length - c.written)).length
      = min (block.drop c.skip).length (c.out.length - c.written) := by
    rw [List.length_take, Nat.min_comm]
  have hout : c.out.replace? c.written
      (c.written + min (block.drop c.skip).length (c.out.length - c.written))
      ((block.drop c.skip).take (c.out.length - c.written))
      = some (c.out.overwrite c.written ((block.drop c.skip).take (c.out.length - c.written))) := by
    rw [Bytes.replace?, if_pos (by omega)]
  rw [copyBlock?, hsource, hspace]
  simp only [Option.bind_eq_bind, Option.bind_some, hspace_length, hpart, hout, hlength]

theorem gather_zero (blocks : List Buffer) (skip : Nat) : gather blocks skip 0 = [] := by
  rw [gather_eq, List.take_zero]

theorem gather_of_le {block : Buffer} {skip : Nat} (rest : List Buffer) (room : Nat)
    (h : block.bytes.length ≤ skip) :
    gather (block :: rest) skip room = gather rest (skip - block.bytes.length) room := by
  rw [gather, if_pos h]
  split
  · next hroom => rw [hroom, gather_zero]
  · rfl

theorem gather_of_lt {block : Buffer} {skip : Nat} (rest : List Buffer) (room : Nat)
    (h : skip < block.bytes.length) :
    gather (block :: rest) skip room = (block.bytes.drop skip).take room
      ++ gather rest 0 (room - ((block.bytes.drop skip).take room).length) := by
  rw [gather, if_neg (Nat.not_le_of_lt h)]
  split
  · next hroom => rw [hroom, Nat.zero_sub, gather_zero, List.take_zero, List.append_nil]
  · rfl

/-- No position is out of bounds, and what is copied is what `gather` finds. -/
theorem exists_copyBlocks? (blocks : List Buffer) (c : Copying) (h : c.written ≤ c.out.length) :
    ∃ skip, copyBlocks? blocks c
      = some ⟨skip, c.written + (gather blocks c.skip (c.out.length - c.written)).length,
        c.out.overwrite c.written (gather blocks c.skip (c.out.length - c.written))⟩ := by
  induction blocks generalizing c with
  | nil => exact ⟨c.skip, by simp [copyBlocks?, gather, Bytes.overwrite_nil]⟩
  | cons block rest ih =>
      rw [copyBlocks?]
      by_cases hfull : c.written = c.out.length
      · refine ⟨c.skip, ?_⟩
        rw [if_pos hfull, hfull, Nat.sub_self, gather_zero, Bytes.overwrite_nil, List.length_nil,
          Nat.add_zero, ← hfull]
      rw [if_neg hfull]
      by_cases hskip : block.bytes.length ≤ c.skip
      · rw [if_pos hskip, gather_of_le rest _ hskip]
        exact ih { c with skip := c.skip - block.bytes.length } h
      · rw [if_neg hskip, gather_of_lt rest _ (Nat.lt_of_not_le hskip),
          copyBlock?_eq (Nat.le_of_not_le hskip) h, Option.bind_some]
        generalize hpart : (block.bytes.drop c.skip).take (c.out.length - c.written) = part
        have hfits : c.written + part.length ≤ c.out.length := by
          rw [← hpart, List.length_take]
          omega
        obtain ⟨skip, hrest⟩ := ih ⟨0, c.written + part.length, c.out.overwrite c.written part⟩
          (by rw [Bytes.length_overwrite hfits]; exact hfits)
        refine ⟨skip, hrest.trans ?_⟩
        rw [Bytes.length_overwrite hfits, ← Nat.sub_sub, List.length_append, ← Nat.add_assoc,
          Bytes.overwrite_append _ hfits]

theorem copyRange?_eq (p : AssembledPiece) (offset : Nat) (out : Bytes) :
    p.copyRange? offset out = some (p.writeRange offset out) := by
  obtain ⟨skip, hcopied⟩ := exists_copyBlocks? p.blocks ⟨offset, 0, out⟩ (Nat.zero_le _)
  rw [copyRange?, hcopied, Option.map_some, writeRange]
  simp [Bytes.overwrite]

/-! ### Slices -/

def copyCount (p : AssembledPiece) (offset room : Nat) : Nat :=
  min room (p.length - min offset p.length)

theorem Whole.writeRange_eq {p : AssembledPiece} (h : p.Whole) (offset : Nat) (out : Bytes) :
    p.writeRange offset out = (p.copyCount offset out.length,
      p.bytes.slice offset (p.copyCount offset out.length)
        ++ out.drop (p.copyCount offset out.length)) := by
  have hwhole : p.bytes.length = p.length := h
  have hcopied : gather p.blocks offset out.length = p.bytes.slice offset out.length :=
    gather_eq _ _ _
  have hcount : (p.bytes.slice offset out.length).length = p.copyCount offset out.length := by
    rw [Bytes.slice, List.length_take, List.length_drop, hwhole, copyCount]
    omega
  have hslice : p.bytes.slice offset out.length
      = p.bytes.slice offset (p.copyCount offset out.length) := by
    rw [← hcount, Bytes.slice, Bytes.slice, List.length_take]
    exact List.take_eq_take_min
  rw [AssembledPiece.writeRange, hcopied, hcount, ← hslice]

theorem writeInto_eq (p : AssembledPiece) (room : Nat) :
    p.writeInto room = (decide (p.bytes.length ≤ room), p.bytes.take room) := by
  rw [writeInto, gather_eq, List.drop_zero]
  rfl

/-- Copies ranges one after the other, each into a space of its own, and joins what they hold. -/
def copyAll (p : AssembledPiece) : Nat → List Bytes → Bytes
  | _, [] => []
  | offset, out :: outs => (p.writeRange offset out).2 ++ p.copyAll (offset + out.length) outs

theorem Whole.copyAll_eq {p : AssembledPiece} (h : p.Whole) (outs : List Bytes) :
    ∀ offset, offset + (outs.map List.length).sum ≤ p.length →
      p.copyAll offset outs = p.bytes.slice offset (outs.map List.length).sum := by
  induction outs with
  | nil =>
      intro offset _
      exact List.take_zero.symm
  | cons out outs ih =>
      intro offset hfits
      rw [List.map_cons, List.sum_cons] at hfits ⊢
      have hcount : p.copyCount offset out.length = out.length := by
        unfold copyCount
        omega
      rw [copyAll, h.writeRange_eq, hcount, List.drop_length, List.append_nil,
        ih (offset + out.length) (by omega), Bytes.slice_append_slice]

end AssembledPiece

namespace Assembler

/-- What an assembler can come to. -/
inductive Reached : Assembler → Prop
  | make (piece length blockSize : Nat) : Reached (make piece length blockSize)
  | add {a a' : Assembler} {b : Block} (h : Reached a) (hadd : a.add? b = some a') : Reached a'
  | complete {a a' : Assembler} {p : AssembledPiece} (h : Reached a)
      (hcomplete : a.complete? = some (p, a')) : Reached a'

/-- As long as nothing was handed over, the slots that are filled hold blocks that fit. -/
theorem Reached.filling {a : Assembler} (h : a.Reached) :
    a.completed = false → a.Filling a.piece a.length := by
  induction h with
  | make piece length blockSize => exact fun _ => filling_make piece length blockSize
  | @add a a' b _ hadd ih =>
      intro hopen
      obtain ⟨haccepts, rfl⟩ := add?_eq_some_iff.mp hadd
      exact (ih (accepts_iff.mp haccepts).1).add hadd
  | @complete a a' p _ hcomplete _ =>
      intro hopen
      obtain ⟨-, -, -, rfl⟩ := complete?_eq_some_iff.mp hcomplete
      cases hopen

/-- In whatever order blocks have come, a piece is handed over as soon as all of them are there. So
no slot of an assembler ever turns out to be empty after they were counted. -/
theorem Reached.isSome_complete {a : Assembler} (h : a.Reached) :
    a.complete.1.isSome = a.isComplete := by
  cases hpiece : a.complete.1 with
  | none => exact (complete_eq_of_none h.filling hpiece).1.symm
  | some p => exact (complete?_eq_some_iff.mp (complete?_of_complete hpiece)).1.symm

/-- A piece that was put together by an assembler. -/
def HandsOver (p : AssembledPiece) : Prop :=
  ∃ a a' : Assembler, a.Reached ∧ a.complete? = some (p, a')

theorem HandsOver.whole {p : AssembledPiece} (h : HandsOver p) : p.Whole := by
  obtain ⟨a, a', hreached, hcomplete⟩ := h
  have hopen := (isComplete_iff.mp (complete?_eq_some_iff.mp hcomplete).1).1
  exact ((hreached.filling hopen).complete hcomplete).2.2

end Assembler

namespace AssembledPiece

/-- Of a piece that was handed over, every range is copied as a slice of the blocks joined together,
be it past the end or not. Nothing behind it is touched, no position is out of bounds, and ranges
that follow one another up to the end are what writing the piece as a whole gives. -/
theorem ranges_eq_slices {p : AssembledPiece} (h : Assembler.HandsOver p) :
    p.bytes.length = p.length
      ∧ (∀ (offset : Nat) (out : Bytes), ∃ count,
        count = min out.length (p.length - min offset p.length)
          ∧ (p.writeRange offset out).1 = count
          ∧ (p.writeRange offset out).2.take count = p.bytes.slice offset count
          ∧ (p.writeRange offset out).2.drop count = out.drop count
          ∧ (p.bytes.slice offset count).length = count
          ∧ p.copyRange? offset out = some (p.writeRange offset out))
      ∧ (∀ room, p.writeInto room = (decide (p.length ≤ room), p.bytes.take room))
      ∧ ∀ outs : List Bytes, (outs.map List.length).sum = p.length →
        p.copyAll 0 outs = p.bytes ∧ p.writeInto p.length = (true, p.copyAll 0 outs) := by
  have hwhole := h.whole
  have hlength : p.bytes.length = p.length := hwhole
  refine ⟨hlength, fun offset out => ?_, fun room => ?_, fun outs houts => ?_⟩
  · have hslice : (p.bytes.slice offset (p.copyCount offset out.length)).length
        = p.copyCount offset out.length := by
      rw [Bytes.slice, List.length_take, List.length_drop, hlength, copyCount]
      omega
    rw [hwhole.writeRange_eq]
    refine ⟨_, rfl, rfl, List.take_left' hslice, List.drop_left' hslice, hslice, ?_⟩
    rw [copyRange?_eq, hwhole.writeRange_eq]
  · rw [writeInto_eq, hlength]
  · have hall : p.copyAll 0 outs = p.bytes := by
      rw [hwhole.copyAll_eq outs 0 (by omega), houts, ← hlength, Bytes.slice, List.drop_zero,
        List.take_length]
    refine ⟨hall, ?_⟩
    rw [writeInto_eq, hall, hlength, decide_eq_true (Nat.le_refl _), ← hlength, List.take_length]

/-- Two blocks of three bytes and one of two, offered in another order. -/
def threeParts : AssembledPiece := ⟨0, 8, [⟨3, [1, 2, 3]⟩, ⟨3, [4, 5, 6]⟩, ⟨2, [7, 8]⟩]⟩

theorem handsOver_threeParts : Assembler.HandsOver threeParts := by
  have hsecond := (Assembler.Reached.make 0 8 3).add (b := ⟨.zero, 0, 3, ⟨3, [4, 5, 6]⟩⟩) rfl
  have hthird := hsecond.add (b := ⟨.zero, 0, 6, ⟨2, [7, 8]⟩⟩) rfl
  have hfirst := hthird.add (b := ⟨.zero, 0, 0, ⟨3, [1, 2, 3]⟩⟩) rfl
  exact ⟨_, _, hfirst, rfl⟩

/-- A range across all blocks, one that ends early, and the piece in two parts that cut a block. -/
theorem ranges_eq_slices_threeParts :
    (threeParts.writeRange 2 [0, 0, 0, 0, 0]).2 = [3, 4, 5, 6, 7]
      ∧ threeParts.copyRange? 6 [0, 0, 0] = some (2, [7, 8, 0])
      ∧ (threeParts.writeRange 4294967295 [9]).1 = 0
      ∧ threeParts.copyAll 0 [[0, 0, 0, 0], [], [0, 0, 0, 0]] = threeParts.bytes := by
  obtain ⟨-, hranges, -, hparts⟩ := ranges_eq_slices handsOver_threeParts
  obtain ⟨_, _, _, _, _, _, hend⟩ := hranges 6 [0, 0, 0]
  obtain ⟨_, hcount, hpast, _⟩ := hranges 4294967295 [9]
  exact ⟨by decide, hend.trans (by decide), hpast.trans (hcount.trans (by decide)),
    (hparts _ rfl).1⟩

end AssembledPiece

end TorrentCore
