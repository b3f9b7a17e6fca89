import TorrentCore.Availability
import TorrentCore.Proofs.Bitfield

/-!
# Counts of holders

Adding and removing a set changes the counts of its pieces by one and no others, provided the set is
one of as many pieces as are counted.
-/

namespace TorrentCore

namespace Availability

/-- There is a count for every piece of the set. -/
def Fits (a : Availability) (pieces : Bitfield) : Prop :=
  pieces.WellFormed ∧ pieces.pieceCount = a.counts.length

@[simp] theorem length_increment (a : Availability) (index : Nat) :
    (a.increment index).counts.length = a.counts.length :=
  List.length_modify _ _ _

theorem length_adjust (change : UInt32 → UInt32) (a : Availability) (pieces : Bitfield) :
    (adjust change a pieces).counts.length = a.counts.length := by
  rw [adjust, List.length_zipWith, List.length_append, List.length_replicate]
  omega

theorem get_of_le {a : Availability} {index : Nat} (h : a.counts.length ≤ index) :
    a.get index = 0 := by
  rw [get, List.getD_eq_getElem?_getD, List.getElem?_eq_none h, Option.getD_none]

theorem get_increment {a : Availability} {index : Nat} (h : index < a.counts.length)
    (index' : Nat) :
    (a.increment index).get index' = if index' = index then a.get index' + 1 else a.get index' := by
  simp only [get, increment, List.getD_eq_getElem?_getD, List.getElem?_modify]
  by_cases he : index = index'
  · subst he
    simp only [List.getElem?_eq_getElem h, if_true, Option.map_eq_map, Option.map_some,
      Option.getD_some]
  · have he' : ¬ index' = index := fun h' => he h'.symm
    simp only [if_neg he, if_neg he', Option.map_eq_map, Option.map_id_fun', id]

theorem get_adjust {change : UInt32 → UInt32} {a : Availability} {pieces : Bitfield}
    (h : a.Fits pieces) (index : Nat) :
    (adjust change a pieces).get index
      = if pieces.contains index then change (a.get index) else a.get index := by
  obtain ⟨hwell, hcount⟩ := h
  by_cases hindex : index < a.counts.length
  · have hheld := Bitfield.getElem?_toBools hwell (hcount ▸ hindex)
    have hfront : index < pieces.toBools.length := by
      rw [Bitfield.length_toBools hwell, hcount]
      exact hindex
    rw [get, adjust, List.getD_eq_getElem?_getD, List.getElem?_zipWith,
      List.getElem?_append_left hfront, hheld, List.getElem?_eq_getElem hindex, get,
      List.getD_eq_getElem?_getD, List.getElem?_eq_getElem hindex]
    rfl
  · have hout := Nat.le_of_not_lt hindex
    have hmissing : pieces.contains index = false := by
      rw [Bool.eq_false_iff]
      exact fun hheld => hindex (hcount ▸ Bitfield.lt_of_contains hheld)
    rw [hmissing, get_of_le hout, get_of_le ((length_adjust change a pieces).symm ▸ hout)]
    rfl

theorem Fits.adjust {a : Availability} {pieces : Bitfield} (h : a.Fits pieces)
    (change : UInt32 → UInt32) (other : Bitfield) : (adjust change a other).Fits pieces :=
  ⟨h.1, h.2.trans (length_adjust change a other).symm⟩

theorem toNat_lower (n : UInt32) : (lower n).toNat = n.toNat - 1 := by
  unfold lower
  split
  · next h =>
    rw [h]
    rfl
  · next h =>
    have hpos : n.toNat ≠ 0 := fun he => h (UInt32.toNat_inj.mp he)
    rw [UInt32.toNat_sub_of_le]
    · rfl
    · rw [UInt32.le_iff_toNat_le]
      show 1 ≤ n.toNat
      omega

theorem toNat_add_one {n : UInt32} (h : n.toNat + 1 < 4294967296) :
    (n + 1).toNat = n.toNat + 1 := by
  rw [UInt32.toNat_add]
  exact Nat.mod_eq_of_lt h

/-! ### Counts as numbers -/

theorem toNat_get_increment {a : Availability} {index : Nat} (h : index < a.counts.length)
    {index' : Nat} (hroom : (a.get index').toNat + 1 < 4294967296) :
    ((a.increment index).get index').toNat
      = (a.get index').toNat + (decide (index' = index)).toNat := by
  rw [get_increment h]
  by_cases he : index' = index
  · rw [if_pos he, decide_eq_true he, toNat_add_one hroom]
    rfl
  · rw [if_neg he, decide_eq_false he]
    rfl

theorem toNat_get_add {a : Availability} {pieces : Bitfield} (h : a.Fits pieces) {index : Nat}
    (hroom : (a.get index).toNat + 1 < 4294967296) :
    ((a.add pieces).get index).toNat = (a.get index).toNat + (pieces.contains index).toNat := by
  rw [add, get_adjust h]
  cases pieces.contains index with
  | true =>
      rw [if_pos rfl, toNat_add_one hroom]
      rfl
  | false => rfl

theorem toNat_get_remove {a : Availability} {pieces : Bitfield} (h : a.Fits pieces) (index : Nat) :
    ((a.remove pieces).get index).toNat = (a.get index).toNat - (pieces.contains index).toNat := by
  rw [remove, get_adjust h]
  cases pieces.contains index with
  | true => exact toNat_lower _
  | false => rfl

end Availability

end TorrentCore
