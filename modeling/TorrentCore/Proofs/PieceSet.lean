import Mathlib.Data.Finset.Sort
import TorrentCore.Proofs.Bitfield

/-!
# Bit fields as finite sets

Pieces are marked and unmarked, and whole bit fields are received and restored, in any order.
Replies are as a finite set of pieces would give them, and after any number of changes everything
that can be read off the bytes is read off that set. The invariant is `Represents`: the bytes are as
many as the pieces need, the bits that belong to no piece are clear, and a piece is contained if it
is in the set.
-/

namespace TorrentCore

abbrev PieceSet := Finset Nat

namespace Bitfield

inductive Change where
  | mark (index : Nat)
  | unmark (index : Nat)
  | overwrite (bytes : Bytes)
  | restore (bytes : Bytes)

inductive Reply where
  /-- Whether the piece was not there before it was marked, or was there before it was unmarked. -/
  | changed (value : Bool)
  | replaced
  | refused (cause : Error)
deriving DecidableEq

/-- A change that is refused leaves the bit field as it is. -/
def settle (f : Bitfield) : Except Error (Reply × Bitfield) → Reply × Bitfield
  | .ok out => out
  | .error cause => (.refused cause, f)

def change (f : Bitfield) : Change → Reply × Bitfield
  | .mark index => f.settle ((f.mark index).map fun (new, g) => (.changed new, g))
  | .unmark index => f.settle ((f.unmark index).map fun (held, g) => (.changed held, g))
  | .overwrite bytes => f.settle ((f.overwrite bytes).map fun g => (.replaced, g))
  | .restore bytes => f.settle ((ofBytes f.pieceCount bytes).map fun g => (.replaced, g))

def changeAll : List Change → Bitfield → List Reply × Bitfield
  | [], f => ([], f)
  | c :: rest, f =>
    let (reply, f) := f.change c
    let (replies, f) := changeAll rest f
    (reply :: replies, f)

end Bitfield

namespace PieceSet

open Bitfield

def packed (pieceCount : Nat) (bytes : Bytes) : PieceSet :=
  (Finset.range pieceCount).filter fun index => bitSet (bytes.getD (index / 8) 0) index = true

def HasTrailing (pieceCount : Nat) (bytes : Bytes) : Prop :=
  ∃ index < 8 * bytes.length, pieceCount ≤ index ∧ bitSet (bytes.getD (index / 8) 0) index = true

instance (pieceCount : Nat) (bytes : Bytes) : Decidable (HasTrailing pieceCount bytes) :=
  inferInstanceAs (Decidable (∃ index < 8 * bytes.length, _))

/-- How a finite set changes. A received one must be of the right length and have no bits that
belong to no piece; of one that was saved such bits are ignored. -/
def change (pieceCount : Nat) (m : PieceSet) : Change → Reply × PieceSet
  | .mark index =>
    if index < pieceCount then (.changed (decide (index ∉ m)), insert index m)
    else (.refused (.invalidPieceIndex index), m)
  | .unmark index =>
    if index < pieceCount then (.changed (decide (index ∈ m)), m.erase index)
    else (.refused (.invalidPieceIndex index), m)
  | .overwrite bytes =>
    if bytes.length ≠ bitfieldLength pieceCount then
      (.refused (.bitfieldLength (bitfieldLength pieceCount) bytes.length), m)
    else if HasTrailing pieceCount bytes then (.refused .bitfieldTrailingBits, m)
    else (.replaced, packed pieceCount bytes)
  | .restore bytes =>
    if bytes.length ≠ bitfieldLength pieceCount then
      (.refused (.bitfieldLength (bitfieldLength pieceCount) bytes.length), m)
    else (.replaced, packed pieceCount bytes)

def changeAll (pieceCount : Nat) : List Change → PieceSet → List Reply × PieceSet
  | [], m => ([], m)
  | c :: rest, m =>
    let (reply, m) := m.change pieceCount c
    let (replies, m) := changeAll pieceCount rest m
    (reply :: replies, m)

end PieceSet

namespace Bitfield

open PieceSet

variable {f g : Bitfield} {m : PieceSet} {pieceCount : Nat}

/-! ### What is read -/

theorem bitSet_loadByte (hwell : f.WellFormed) (htrimmed : f.Trimmed) (index : Nat) :
    bitSet (f.loadByte (index / 8)) index = f.contains index := by
  rw [contains_eq]
  by_cases hindex : index < f.pieceCount
  · rw [decide_eq_true hindex, Bool.true_and]
  · rw [decide_eq_false hindex, Bool.false_and]
    exact (trimmed_iff hwell).mp htrimmed index (Nat.le_of_not_lt hindex)

theorem toBools_eq_map (h : f.WellFormed) :
    f.toBools = (List.range f.pieceCount).map f.contains := by
  apply List.ext_getElem?
  intro index
  by_cases hindex : index < f.pieceCount
  · rw [getElem?_toBools h hindex, List.getElem?_map, List.getElem?_range hindex, Option.map_some]
  · have hlength := Nat.le_of_not_lt hindex
    rw [List.getElem?_eq_none ((length_toBools h).trans_le hlength),
      List.getElem?_eq_none (by rwa [List.length_map, List.length_range])]

theorem toList_eq_filter (h : f.WellFormed) :
    f.toList = (List.range f.pieceCount).filter f.contains := by
  rw [toList, toBools_eq_map h]
  induction List.range f.pieceCount with
  | nil => rfl
  | cons index indices ih =>
      rw [List.map_cons, List.zip_cons_cons, List.filterMap_cons, List.filter_cons, ih]
      cases f.contains index <;> rfl

/-- The bits that are counted are those of the pieces, because no other ones are set. -/
theorem count_eq_length_toList (hwell : f.WellFormed) (htrimmed : f.Trimmed) :
    f.count = f.toList.length := by
  have hbytes : f.count = (f.bytes.flatMap bitsOfByte).count true := by
    rw [count]
    induction f.bytes with
    | nil => rfl
    | cons b bytes ih =>
        rw [List.foldr_cons, ih, List.flatMap_cons, List.count_append]
        rfl
  have hbehind : ((f.bytes.flatMap bitsOfByte).drop f.pieceCount).count true = 0 := by
    rw [List.count_eq_zero]
    intro hmem
    obtain ⟨offset, hset⟩ := List.mem_iff_getElem?.mp hmem
    rw [List.getElem?_drop, getElem?_flatMap_bitsOfByte] at hset
    obtain ⟨b, hb, hbit⟩ := Option.map_eq_some_iff.mp hset
    have hclear := (trimmed_iff hwell).mp htrimmed (f.pieceCount + offset) (Nat.le_add_right _ _)
    rw [loadByte, List.getD_eq_getElem?_getD, hb, Option.getD_some, hbit] at hclear
    cases hclear
  calc f.count = (f.bytes.flatMap bitsOfByte).count true := hbytes
    _ = f.toBools.count true + ((f.bytes.flatMap bitsOfByte).drop f.pieceCount).count true := by
        rw [toBools, ← List.count_append, List.take_append_drop]
    _ = f.toBools.count true := by rw [hbehind, Nat.add_zero]
    _ = f.toList.length := by
        rw [toBools_eq_map hwell, toList_eq_filter hwell, List.count, List.countP_map,
          ← List.countP_eq_length_filter]
        congr 1
        funext index
        exact beq_true _

theorem hasNone_iff (hwell : f.WellFormed) (htrimmed : f.Trimmed) :
    f.hasNone = true ↔ ∀ index, f.contains index = false := by
  refine ⟨not_contains_of_hasNone, fun h => List.all_eq_true.mpr fun b hb => ?_⟩
  obtain ⟨position, hposition, rfl⟩ := List.getElem_of_mem hb
  rw [beq_iff_eq]
  apply byte_ext
  intro i hi
  have hbit := bitSet_loadByte hwell htrimmed (8 * position + i)
  rw [h, show (8 * position + i) / 8 = position by omega, ← bitSet_mod,
    show (8 * position + i) % 8 = i by omega, loadByte_of_lt hposition] at hbit
  rw [hbit, bitSet_zero]

/-- Everything that can be read off a bit field, as it is read off a set. -/
structure Describes (pieceCount : Nat) (m : PieceSet) (f : Bitfield) : Prop where
  lt : ∀ index ∈ m, index < pieceCount
  length_bytes : f.bytes.length = (pieceCount + 7) / 8
  trailing : ∀ index, pieceCount ≤ index → bitSet (f.loadByte (index / 8)) index = false
  loadByte_bits : ∀ index, bitSet (f.loadByte (index / 8)) index = decide (index ∈ m)
  has_eq : ∀ index, f.has index = if index < pieceCount then .ok (decide (index ∈ m))
    else .error (.invalidPieceIndex index)
  toList_eq : f.toList = m.sort
  count_eq : f.count = m.card
  hasAll_eq : f.hasAll = decide (m = Finset.range pieceCount)
  hasNone_eq : f.hasNone = decide (m = ∅)
  toBools_eq : f.toBools = (List.range pieceCount).map fun index => decide (index ∈ m)
  accepted : validate pieceCount f.bytes = .ok ()
  restored : ofBytes pieceCount f.bytes = .ok f

/-- The bit field is a packed form of the set. -/
structure Represents (pieceCount : Nat) (m : PieceSet) (f : Bitfield) : Prop where
  pieceCount_eq : f.pieceCount = pieceCount
  wellFormed : f.WellFormed
  trimmed : f.Trimmed
  contains_eq : ∀ index, f.contains index = decide (index ∈ m)

namespace Represents

theorem lt (h : Represents pieceCount m f) {index : Nat} (hindex : index ∈ m) :
    index < pieceCount := by
  rw [← h.pieceCount_eq]
  apply lt_of_contains
  rw [h.contains_eq, decide_eq_true hindex]

theorem toList_eq (h : Represents pieceCount m f) : f.toList = m.sort := by
  rw [toList_eq_filter h.wellFormed]
  have hmem : ((List.range f.pieceCount).filter f.contains).toFinset = m := by
    ext index
    rw [List.mem_toFinset, List.mem_filter, List.mem_range, h.contains_eq, decide_eq_true_iff]
    exact and_iff_right_of_imp fun hindex => h.pieceCount_eq ▸ h.lt hindex
  have hsorted : ((List.range f.pieceCount).filter f.contains).Pairwise (· ≤ ·) :=
    List.pairwise_le_range.filter _
  rw [← hmem, (List.toFinset_sort (· ≤ ·) (List.nodup_range.filter _)).mpr hsorted]

theorem describes (h : Represents pieceCount m f) : Describes pieceCount m f := by
  have hbits : ∀ index, bitSet (f.loadByte (index / 8)) index = decide (index ∈ m) := fun index =>
    (bitSet_loadByte h.wellFormed h.trimmed index).trans (h.contains_eq index)
  have hlt : ∀ index ∈ m, index < pieceCount := fun index => h.lt
  have hlist : f.toList = m.sort := h.toList_eq
  obtain ⟨rfl, hwell, htrimmed, hcontains⟩ := h
  refine ⟨hlt, hwell, (trimmed_iff hwell).mp htrimmed, hbits, fun index => ?_, hlist,
    ?_, ?_, ?_, ?_,
    validate_bytes hwell htrimmed, ofBytes_bytes hwell htrimmed⟩
  · rw [has, hcontains]
  · rw [count_eq_length_toList hwell htrimmed, hlist, Finset.length_sort]
  · rw [Bool.eq_iff_iff, hasAll_iff hwell, decide_eq_true_iff]
    simp only [hcontains, decide_eq_true_iff]
    constructor
    · intro hall
      ext index
      exact ⟨fun hindex => Finset.mem_range.mpr (hlt index hindex),
        fun hindex => hall index (Finset.mem_range.mp hindex)⟩
    · rintro hall index hindex
      rw [hall]
      exact Finset.mem_range.mpr hindex
  · rw [Bool.eq_iff_iff, hasNone_iff hwell htrimmed, decide_eq_true_iff,
      Finset.eq_empty_iff_forall_notMem]
    simp only [hcontains, decide_eq_false_iff_not]
  · rw [toBools_eq_map hwell]
    exact List.map_congr_left fun index _ => hcontains index

/-! ### What is changed -/

theorem empty (pieceCount : Nat) : Represents pieceCount ∅ (Bitfield.empty pieceCount) where
  pieceCount_eq := rfl
  wellFormed := wellFormed_empty pieceCount
  trimmed := trimmed_empty pieceCount
  contains_eq index := by rw [contains_empty, decide_eq_false (Finset.notMem_empty index)]

theorem insert (h : Represents pieceCount m f) {index : Nat} (hindex : index < pieceCount) :
    Represents pieceCount (Insert.insert index m) (f.insert index) := by
  have hlt : index < f.pieceCount := h.pieceCount_eq ▸ hindex
  refine ⟨h.pieceCount_eq, h.wellFormed.insert index, h.trimmed.insert h.wellFormed hlt,
    fun i => ?_⟩
  rw [contains_insert h.wellFormed hlt, h.contains_eq, ← Bool.decide_or]
  exact decide_eq_decide.mpr (by rw [Finset.mem_insert, or_comm])

theorem erase (h : Represents pieceCount m f) {index : Nat} (hindex : index < pieceCount) :
    Represents pieceCount (m.erase index) (f.erase index) := by
  have hlt : index < f.pieceCount := h.pieceCount_eq ▸ hindex
  refine ⟨h.pieceCount_eq, h.wellFormed.erase index, h.trimmed.erase h.wellFormed hlt, fun i => ?_⟩
  rw [contains_erase h.wellFormed hlt, h.contains_eq, ← decide_not, ← Bool.decide_and]
  exact decide_eq_decide.mpr (by rw [Finset.mem_erase, and_comm])

theorem ofBytes {bytes : Bytes} (h : ofBytes pieceCount bytes = .ok f) :
    Represents pieceCount (packed pieceCount bytes) f := by
  obtain ⟨hwell, hcount⟩ := wellFormed_ofBytes h
  refine ⟨hcount, hwell, trimmed_ofBytes h, fun index => ?_⟩
  rw [contains_ofBytes h, packed, Bool.eq_iff_iff, Bool.and_eq_true, decide_eq_true_iff,
    decide_eq_true_iff, Finset.mem_filter, Finset.mem_range]

end Represents

/-- A received bit field is refused for its length, or else for bits that belong to no piece. -/
theorem validate_eq (pieceCount : Nat) (bytes : Bytes) : validate pieceCount bytes
    = if bytes.length ≠ bitfieldLength pieceCount then
        .error (.bitfieldLength (bitfieldLength pieceCount) bytes.length)
      else if HasTrailing pieceCount bytes then .error .bitfieldTrailingBits
      else .ok () := by
  by_cases hlength : bytes.length = bitfieldLength pieceCount
  · rw [if_neg (not_not_intro hlength)]
    have hwell : (⟨pieceCount, bytes⟩ : Bitfield).WellFormed := hlength
    split
    · next hbehind =>
      obtain ⟨index, -, hindex, hset⟩ := hbehind
      rw [validate, if_neg (not_not_intro hlength)]
      split
      · next last hlast =>
        refine if_pos fun hclear => ?_
        have htrimmed : (⟨pieceCount, bytes⟩ : Bitfield).Trimmed := by
          intro last' hlast'
          cases hlast.symm.trans hlast'
          exact hclear
        cases hset.symm.trans ((trimmed_iff hwell).mp htrimmed index hindex)
      · next hnone =>
        rw [List.getLast?_eq_none_iff.mp hnone] at hset
        cases (bitSet_zero index).symm.trans hset
    · next hclear =>
      refine validate_bytes hwell ((trimmed_iff hwell).mpr fun index hindex => ?_)
      by_contra hset
      rw [Bool.not_eq_false] at hset
      refine hclear ⟨index, ?_, hindex, hset⟩
      by_contra hbeyond
      have hzero : loadByte ⟨pieceCount, bytes⟩ (index / 8) = 0 := by
        rw [loadByte, List.getD_eq_getElem?_getD, List.getElem?_eq_none (by simp only; omega),
          Option.getD_none]
      rw [hzero, bitSet_zero] at hset
      cases hset
  · rw [if_pos hlength, validate, if_pos hlength]

theorem ofBytes_eq_ok {bytes : Bytes} (hlength : bytes.length = bitfieldLength pieceCount) :
    ofBytes pieceCount bytes = .ok ⟨pieceCount, maskLast pieceCount bytes⟩ :=
  if_neg (not_not_intro hlength)

theorem Represents.change (h : Represents pieceCount m f) (c : Change) :
    (f.change c).1 = (m.change pieceCount c).1
      ∧ Represents pieceCount (m.change pieceCount c).2 (f.change c).2 := by
  have hcount := h.pieceCount_eq
  cases c with
  | mark index =>
      simp only [Bitfield.change, PieceSet.change, mark, hcount, h.contains_eq]
      split
      · next hindex => exact ⟨by rw [decide_not]; rfl, h.insert hindex⟩
      · exact ⟨rfl, h⟩
  | unmark index =>
      simp only [Bitfield.change, PieceSet.change, unmark, hcount, h.contains_eq]
      split
      · next hindex => exact ⟨rfl, h.erase hindex⟩
      · exact ⟨rfl, h⟩
  | overwrite bytes =>
      simp only [Bitfield.change, PieceSet.change, overwrite, hcount, validate_eq]
      by_cases hlength : bytes.length = bitfieldLength pieceCount
      · rw [if_neg (not_not_intro hlength), if_neg (not_not_intro hlength)]
        by_cases htrailing : HasTrailing pieceCount bytes
        · rw [if_pos htrailing, if_pos htrailing]
          exact ⟨rfl, h⟩
        · rw [if_neg htrailing, if_neg htrailing]
          exact ⟨rfl, .ofBytes (ofBytes_eq_ok hlength)⟩
      · rw [if_pos hlength, if_pos hlength]
        exact ⟨rfl, h⟩
  | restore bytes =>
      simp only [Bitfield.change, PieceSet.change, hcount]
      by_cases hlength : bytes.length = bitfieldLength pieceCount
      · rw [if_neg (not_not_intro hlength), ofBytes_eq_ok hlength]
        exact ⟨rfl, .ofBytes (ofBytes_eq_ok hlength)⟩
      · rw [if_pos hlength, Bitfield.ofBytes, if_pos hlength]
        exact ⟨rfl, h⟩

theorem Represents.changeAll (h : Represents pieceCount m f) (changes : List Change) :
    (changeAll changes f).1 = (PieceSet.changeAll pieceCount changes m).1
      ∧ Represents pieceCount (PieceSet.changeAll pieceCount changes m).2 (changeAll changes f).2 := by
  induction changes generalizing f m with
  | nil => exact ⟨rfl, h⟩
  | cons c changes ih =>
      obtain ⟨hreply, hnext⟩ := h.change c
      obtain ⟨hreplies, hlast⟩ := ih hnext
      exact ⟨congrArg₂ List.cons hreply hreplies, hlast⟩

/-- Whatever is done to a bit field of no pieces, it replies as the empty set would, and in the end
everything that is read off it is what the set has come to. -/
theorem changes_eq_pieceSet (pieceCount : Nat) (changes : List Change) :
    (changeAll changes (empty pieceCount)).1 = (PieceSet.changeAll pieceCount changes ∅).1
      ∧ Describes pieceCount (PieceSet.changeAll pieceCount changes ∅).2
        (changeAll changes (empty pieceCount)).2 := by
  obtain ⟨hreplies, hlast⟩ := (Represents.empty pieceCount).changeAll changes
  exact ⟨hreplies, hlast.describes⟩

example : changeAll [.restore [0xff, 0xff], .unmark 3, .overwrite [0, 1], .mark 12] (empty 12)
    = ([.replaced, .changed true, .refused .bitfieldTrailingBits, .refused (.invalidPieceIndex 12)],
      ⟨12, [0xef, 0xf0]⟩) := by
  decide

end Bitfield

end TorrentCore
