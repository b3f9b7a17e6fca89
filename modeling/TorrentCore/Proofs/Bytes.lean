import TorrentCore.Bytes

/-!
# Parts of byte strings

A part of a byte string is read with `slice` and replaced with `overwrite`. Read position by
position, what was overwritten is the new block inside its range and the old bytes outside, so that
ranges with nothing in common do not see each other. `between?` and `replace?` do the same with the
bounds checked.
-/

namespace TorrentCore

namespace Bytes

theorem length_slice (bytes : Bytes) (start count : Nat) :
    (bytes.slice start count).length = min count (bytes.length - start) := by
  rw [slice, List.length_take, List.length_drop]

theorem slice_append_slice (bytes : Bytes) (start count more : Nat) :
    slice bytes start count ++ slice bytes (start + count) more
      = slice bytes start (count + more) := by
  rw [slice, slice, slice, ← List.drop_drop, List.take_add]

theorem flatten_slices (bytes : Bytes) (start total part count : Nat) :
    ((List.range count).map fun k =>
        slice bytes (start + k * part) (min (total - k * part) part)).flatten
      = slice bytes start (min (count * part) total) := by
  induction count with
  | zero =>
      rw [Nat.zero_mul, Nat.zero_min]
      rfl
  | succ count ih =>
      rw [List.range_succ, List.map_append, List.flatten_append, ih, List.map_cons, List.map_nil,
        List.flatten_cons, List.flatten_nil, List.append_nil, Nat.succ_mul]
      rcases Nat.le_total (count * part) total with hmore | hdone
      · rw [Nat.min_eq_left hmore, slice_append_slice]
        congr 1
        omega
      · rw [Nat.min_eq_right hdone, Nat.sub_eq_zero_of_le hdone, Nat.zero_min,
          Nat.min_eq_right (by omega)]
        exact List.append_nil _

/-! ### Overwriting -/

theorem slice_overwrite_self {bytes block : Bytes} {start : Nat}
    (h : start + block.length ≤ bytes.length) :
    slice (overwrite bytes start block) start block.length = block := by
  have hfront : (bytes.take start).length = start := by
    rw [List.length_take]
    omega
  rw [slice, overwrite, List.append_assoc, List.drop_left' hfront, List.take_left' rfl]

theorem getElem?_overwrite {bytes block : Bytes} {start position : Nat}
    (h : start + block.length ≤ bytes.length)
    (hposition : position < start ∨ start + block.length ≤ position) :
    (overwrite bytes start block)[position]? = bytes[position]? := by
  have hfront : (bytes.take start).length = start := by
    rw [List.length_take]
    omega
  rw [overwrite, List.append_assoc, List.getElem?_append, hfront]
  rcases hposition with hbefore | hbehind
  · rw [if_pos hbefore, List.getElem?_take_of_lt hbefore]
  · rw [if_neg (by omega), List.getElem?_append_right (by omega), List.getElem?_drop]
    congr 1
    omega

theorem getElem?_overwrite_inside {bytes block : Bytes} {start position : Nat}
    (h : start + block.length ≤ bytes.length) (hstart : start ≤ position)
    (hstop : position < start + block.length) :
    (overwrite bytes start block)[position]? = block[position - start]? := by
  have hfront : (bytes.take start).length = start := by
    rw [List.length_take]
    omega
  rw [overwrite, List.append_assoc, List.getElem?_append_right (by omega), hfront,
    List.getElem?_append_left (by omega)]

theorem slice_overwrite_of_disjoint {bytes block : Bytes} {start start' count : Nat}
    (h : start + block.length ≤ bytes.length)
    (hdisjoint : start' + count ≤ start ∨ start + block.length ≤ start') :
    slice (overwrite bytes start block) start' count = slice bytes start' count := by
  apply List.ext_getElem?
  intro i
  simp only [slice, List.getElem?_take, List.getElem?_drop]
  split
  · exact getElem?_overwrite h (by omega)
  · rfl

theorem overwrite_nil (bytes : Bytes) (start : Nat) : bytes.overwrite start [] = bytes := by
  simp [overwrite]

theorem overwrite_append {bytes block : Bytes} {start : Nat} (more : Bytes)
    (h : start + block.length ≤ bytes.length) :
    bytes.overwrite start (block ++ more)
      = (bytes.overwrite start block).overwrite (start + block.length) more := by
  have hfront : (bytes.take start ++ block).length = start + block.length := by
    rw [List.length_append, List.length_take]
    omega
  have hkept : (bytes.overwrite start block).take (start + block.length)
      = bytes.take start ++ block := by
    rw [overwrite, ← hfront, List.take_left]
  have hrest : (bytes.overwrite start block).drop (start + block.length + more.length)
      = bytes.drop (start + block.length + more.length) := by
    rw [overwrite, ← List.drop_drop, ← hfront, List.drop_left, hfront, List.drop_drop]
  rw [overwrite, overwrite, hkept, hrest, List.length_append, ← Nat.add_assoc]
  simp only [List.append_assoc]

theorem overwrite_comm {bytes block block' : Bytes} {start start' : Nat}
    (h : start + block.length ≤ bytes.length) (h' : start' + block'.length ≤ bytes.length)
    (hdisjoint : start + block.length ≤ start' ∨ start' + block'.length ≤ start) :
    (bytes.overwrite start block).overwrite start' block'
      = (bytes.overwrite start' block').overwrite start block := by
  have hfits : start + block.length ≤ (bytes.overwrite start' block').length := by
    rwa [length_overwrite h']
  have hfits' : start' + block'.length ≤ (bytes.overwrite start block).length := by
    rwa [length_overwrite h]
  apply List.ext_getElem?
  intro position
  by_cases hin : start ≤ position ∧ position < start + block.length
  · rw [getElem?_overwrite hfits' (by omega), getElem?_overwrite_inside h hin.1 hin.2,
      getElem?_overwrite_inside hfits hin.1 hin.2]
  · rw [getElem?_overwrite hfits (by omega)]
    by_cases hin' : start' ≤ position ∧ position < start' + block'.length
    · rw [getElem?_overwrite_inside hfits' hin'.1 hin'.2,
        getElem?_overwrite_inside h' hin'.1 hin'.2]
    · rw [getElem?_overwrite hfits' (by omega), getElem?_overwrite h (by omega),
        getElem?_overwrite h' (by omega)]

/-! ### Checked bounds -/

/-- What is between two positions, unless one of them is out of bounds. -/
def between? (bytes : Bytes) (start stop : Nat) : Option Bytes :=
  if start ≤ stop ∧ stop ≤ bytes.length then some (bytes.slice start (stop - start)) else none

/-- Replaces what is between two positions by as many bytes, unless one of them is out of bounds. -/
def replace? (bytes : Bytes) (start stop : Nat) (block : Bytes) : Option Bytes :=
  if start ≤ stop ∧ stop ≤ bytes.length ∧ block.length = stop - start then
    some (bytes.overwrite start block)
  else none

theorem between?_length {bytes : Bytes} {start : Nat} (h : start ≤ bytes.length) :
    bytes.between? start bytes.length = some (bytes.drop start) := by
  rw [between?, if_pos ⟨h, Nat.le_refl _⟩, slice, ← List.length_drop, List.take_length]

end Bytes

end TorrentCore
