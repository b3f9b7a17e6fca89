import TorrentCore.Bitfield

/-!
# Bit fields as sets

What the bytes of a bit field say is `contains`, and every operation is what its name says about
that: this is all the rest uses. It holds of a bit field with as many bytes as its pieces need,
which is what every operation keeps. A byte is a vector of eight bits here, the first one on top.
-/

namespace TorrentCore

/-! ### The bits of a byte -/

def bitSet (b : UInt8) (index : Nat) : Bool := b &&& bitMask index != 0

theorem toBitVec_bitMask (index : Nat) :
    (bitMask index).toBitVec = BitVec.twoPow 8 (7 - index % 8) := by
  have hall : ∀ i : Fin 8, ((0x80 : UInt8) >>> UInt8.ofNat i.val).toBitVec
      = BitVec.twoPow 8 (7 - i.val) := by decide
  exact hall ⟨index % 8, Nat.mod_lt _ (by decide)⟩

theorem bitSet_eq_getLsbD (b : UInt8) (index : Nat) :
    bitSet b index = b.toBitVec.getLsbD (7 - index % 8) := by
  rw [bitSet, bne, Bool.eq_iff_iff, Bool.not_eq_true', beq_eq_false_iff_ne, ne_eq,
    ← UInt8.toBitVec_inj, UInt8.toBitVec_and, toBitVec_bitMask, BitVec.and_twoPow]
  have hindex : 7 - index % 8 < 8 := by omega
  have hpow : BitVec.twoPow 8 (7 - index % 8) ≠ 0#8 := by
    intro h
    have hbit := congrArg (fun v => v.getLsbD (7 - index % 8)) h
    simp [hindex] at hbit
  cases h : b.toBitVec.getLsbD (7 - index % 8) with
  | true => simpa using hpow
  | false => simp

theorem bitSet_zero (index : Nat) : bitSet 0 index = false := by
  rw [bitSet_eq_getLsbD]
  exact BitVec.getLsbD_zero

theorem bitSet_and (b c : UInt8) (index : Nat) :
    bitSet (b &&& c) index = (bitSet b index && bitSet c index) := by
  simp only [bitSet_eq_getLsbD, UInt8.toBitVec_and, BitVec.getLsbD_and]

theorem bitSet_or (b c : UInt8) (index : Nat) :
    bitSet (b ||| c) index = (bitSet b index || bitSet c index) := by
  simp only [bitSet_eq_getLsbD, UInt8.toBitVec_or, BitVec.getLsbD_or]

theorem bitSet_not (b : UInt8) (index : Nat) : bitSet (~~~b) index = !bitSet b index := by
  have hindex : 7 - index % 8 < 8 := by omega
  simp only [bitSet_eq_getLsbD, UInt8.toBitVec_not, BitVec.getLsbD_not, hindex, decide_true,
    Bool.true_and]

theorem bitSet_bitMask (index index' : Nat) :
    bitSet (bitMask index) index' = decide (index' % 8 = index % 8) := by
  rw [bitSet_eq_getLsbD, toBitVec_bitMask, BitVec.getLsbD_twoPow, Bool.eq_iff_iff]
  simp only [Bool.and_eq_true, decide_eq_true_eq]
  omega

theorem bitSet_lastByteMask (pieceCount : Nat) {index : Nat} (hindex : index < 8) :
    bitSet (lastByteMask pieceCount) index
      = decide (pieceCount % 8 = 0 ∨ index < pieceCount % 8) := by
  have hall : ∀ r i : Fin 8, bitSet (lastByteMask r.val) i.val
      = decide (r.val = 0 ∨ i.val < r.val) := by
    decide
  have hmod : lastByteMask pieceCount = lastByteMask (pieceCount % 8) := by
    unfold lastByteMask
    rw [Nat.mod_mod]
  rw [hmod]
  exact hall ⟨pieceCount % 8, Nat.mod_lt _ (by decide)⟩ ⟨index, hindex⟩

theorem bitSet_mod (b : UInt8) (index : Nat) : bitSet b (index % 8) = bitSet b index := by
  rw [bitSet_eq_getLsbD, bitSet_eq_getLsbD, Nat.mod_mod]

theorem bitSet_full (index : Nat) : bitSet 0xff index = true := by
  rw [show (0xff : UInt8) = ~~~0 by decide, bitSet_not, bitSet_zero]
  rfl

theorem byte_ext {b c : UInt8} (h : ∀ i < 8, bitSet b i = bitSet c i) : b = c := by
  apply UInt8.toBitVec_inj.mp
  apply BitVec.eq_of_getLsbD_eq
  intro i hi
  have hbit := h (7 - i) (by omega)
  rw [bitSet_eq_getLsbD, bitSet_eq_getLsbD, Nat.mod_eq_of_lt (by omega),
    show 7 - (7 - i) = i by omega] at hbit
  exact hbit

theorem countP_add_toNat {l : List Nat} {k : Nat} {p q : Nat → Bool} (hnodup : l.Nodup) (hk : k ∈ l)
    (h : ∀ n ∈ l, n ≠ k → p n = q n) : l.countP p + (q k).toNat = l.countP q + (p k).toNat := by
  have hperm := List.perm_cons_erase hk
  have hrest : (l.erase k).countP p = (l.erase k).countP q := by
    apply List.countP_congr
    intro n hn
    have hne : n ≠ k := fun heq => hnodup.not_mem_erase (heq ▸ hn)
    rw [h n (List.mem_of_mem_erase hn) hne]
  rw [hperm.countP_eq p, hperm.countP_eq q, List.countP_cons, List.countP_cons, hrest]
  cases p k <;> cases q k <;> simp

theorem onesInByte_or_bitMask (b : UInt8) (index : Nat) :
    onesInByte (b ||| bitMask index) = onesInByte b + (!bitSet b index).toNat := by
  have hones (c : UInt8) : onesInByte c = (List.range 8).countP (bitSet c) := by
    rw [onesInByte, bitsOfByte, List.count, List.countP_map]
    congr 1
    funext i
    exact beq_true _
  have hothers : ∀ i ∈ List.range 8, i ≠ index % 8 →
      bitSet (b ||| bitMask index) i = bitSet b i := by
    intro i hi hne
    rw [bitSet_or, bitSet_bitMask, Nat.mod_eq_of_lt (List.mem_range.mp hi), decide_eq_false hne,
      Bool.or_false]
  have hcount := countP_add_toNat List.nodup_range
    (List.mem_range.mpr (Nat.mod_lt index (by decide))) hothers
  rw [bitSet_or, bitSet_bitMask, bitSet_mod, Nat.mod_mod, decide_eq_true rfl, Bool.or_true,
    Bool.toNat_true, ← hones, ← hones] at hcount
  cases hbit : bitSet b index with
  | true =>
      rw [hbit] at hcount
      exact Nat.add_right_cancel hcount
  | false =>
      rw [hbit] at hcount
      exact hcount

/-! ### The set of a bit field -/

theorem div_lt_bitfieldLength {index pieceCount : Nat} (h : index < pieceCount) :
    index / 8 < bitfieldLength pieceCount := by
  unfold bitfieldLength
  omega

namespace Bitfield

/-- There is a bit for every piece, and no byte more. -/
def WellFormed (f : Bitfield) : Prop := f.bytes.length = bitfieldLength f.pieceCount

theorem contains_eq (f : Bitfield) (index : Nat) :
    f.contains index = (decide (index < f.pieceCount) && bitSet (f.loadByte (index / 8)) index) :=
  rfl

theorem lt_of_contains {f : Bitfield} {index : Nat} (h : f.contains index = true) :
    index < f.pieceCount := by
  rw [contains_eq, Bool.and_eq_true, decide_eq_true_eq] at h
  exact h.1

theorem loadByte_of_lt {f : Bitfield} {position : Nat} (h : position < f.bytes.length) :
    f.loadByte position = f.bytes[position] := by
  rw [loadByte, List.getD_eq_getElem?_getD, List.getElem?_eq_getElem h, Option.getD_some]

theorem wellFormed_empty (pieceCount : Nat) : (empty pieceCount).WellFormed :=
  List.length_replicate

@[simp] theorem contains_empty (pieceCount index : Nat) :
    (empty pieceCount).contains index = false := by
  have hbyte : (empty pieceCount).loadByte (index / 8) = 0 := by
    simp only [loadByte, empty, List.getD_eq_getElem?_getD, List.getElem?_replicate]
    split <;> rfl
  rw [contains_eq, hbyte, bitSet_zero, Bool.and_false]

/-! ### One piece more or less -/

theorem loadByte_set {f : Bitfield} {position : Nat} (h : position < f.bytes.length) (b : UInt8)
    (position' : Nat) :
    loadByte { f with bytes := f.bytes.set position b } position'
      = if position' = position then b else f.loadByte position' := by
  simp only [loadByte, List.getD_eq_getElem?_getD, List.getElem?_set]
  by_cases heq : position' = position
  · subst heq
    rw [if_pos rfl, if_pos h, if_pos rfl, Option.getD_some]
  · rw [if_neg fun he => heq he.symm, if_neg heq]

theorem WellFormed.insert {f : Bitfield} (h : f.WellFormed) (index : Nat) :
    (f.insert index).WellFormed := by
  rw [WellFormed, Bitfield.insert, List.length_set]
  exact h

theorem WellFormed.erase {f : Bitfield} (h : f.WellFormed) (index : Nat) :
    (f.erase index).WellFormed := by
  rw [WellFormed, Bitfield.erase, List.length_set]
  exact h

theorem contains_insert {f : Bitfield} (h : f.WellFormed) {index : Nat}
    (hindex : index < f.pieceCount) (index' : Nat) :
    (f.insert index).contains index' = (f.contains index' || decide (index' = index)) := by
  have hbyte := loadByte_set (h ▸ div_lt_bitfieldLength hindex : index / 8 < f.bytes.length)
    (f.loadByte (index / 8) ||| bitMask index) (index' / 8)
  rw [contains_eq, contains_eq, Bitfield.insert, hbyte]
  by_cases hdiv : index' / 8 = index / 8
  · rw [if_pos hdiv, bitSet_or, bitSet_bitMask, hdiv]
    by_cases heq : index' = index
    · subst heq
      simp [hindex]
    · have hmod : ¬ index' % 8 = index % 8 := by omega
      simp [heq, hmod]
  · have heq : ¬ index' = index := fun he => hdiv (by rw [he])
    rw [if_neg hdiv, decide_eq_false heq, Bool.or_false]

theorem insert_of_contains {f : Bitfield} {index : Nat} (h : f.contains index = true) :
    f.insert index = f := by
  rw [contains_eq, Bool.and_eq_true] at h
  have hbyte : f.loadByte (index / 8) ||| bitMask index = f.loadByte (index / 8) := by
    apply byte_ext
    intro i _
    rw [bitSet_or, bitSet_bitMask]
    by_cases hi : i % 8 = index % 8
    · rw [← bitSet_mod _ i, hi, bitSet_mod, h.2]
      rfl
    · rw [decide_eq_false hi, Bool.or_false]
  have hbytes : f.bytes.set (index / 8) (f.loadByte (index / 8)) = f.bytes := by
    by_cases hposition : index / 8 < f.bytes.length
    · rw [loadByte_of_lt hposition, List.set_getElem_self]
    · rw [List.set_eq_of_length_le (Nat.le_of_not_lt hposition)]
  rw [Bitfield.insert, hbyte, hbytes]

theorem foldr_set (l : Bytes) {position : Nat} (h : position < l.length) (b : UInt8) :
    (l.set position b).foldr (fun b n => onesInByte b + n) 0 + onesInByte l[position]
      = l.foldr (fun b n => onesInByte b + n) 0 + onesInByte b := by
  induction l generalizing position with
  | nil => cases h
  | cons c l ih =>
      cases position with
      | zero =>
          simp only [List.set_cons_zero, List.foldr_cons, List.getElem_cons_zero]
          omega
      | succ position =>
          have hrest := ih (Nat.lt_of_succ_lt_succ h)
          simp only [List.set_cons_succ, List.foldr_cons, List.getElem_cons_succ]
          omega

theorem count_insert {f : Bitfield} (h : f.WellFormed) {index : Nat}
    (hindex : index < f.pieceCount) :
    (f.insert index).count = f.count + (!f.contains index).toNat := by
  have hposition : index / 8 < f.bytes.length := h ▸ div_lt_bitfieldLength hindex
  have hset := foldr_set f.bytes hposition (f.loadByte (index / 8) ||| bitMask index)
  rw [onesInByte_or_bitMask, loadByte_of_lt hposition, ← Nat.add_assoc, Nat.add_right_comm] at hset
  rw [count, Bitfield.insert, contains_eq, decide_eq_true hindex, Bool.true_and,
    loadByte_of_lt hposition]
  exact Nat.add_right_cancel hset

theorem count_empty (pieceCount : Nat) : (empty pieceCount).count = 0 := by
  rw [count, empty]
  induction bitfieldLength pieceCount with
  | zero => rfl
  | succ length ih =>
      rw [List.replicate_succ, List.foldr_cons, ih]
      decide

theorem contains_erase {f : Bitfield} (h : f.WellFormed) {index : Nat}
    (hindex : index < f.pieceCount) (index' : Nat) :
    (f.erase index).contains index' = (f.contains index' && !decide (index' = index)) := by
  have hbyte := loadByte_set (h ▸ div_lt_bitfieldLength hindex : index / 8 < f.bytes.length)
    (f.loadByte (index / 8) &&& ~~~bitMask index) (index' / 8)
  rw [contains_eq, contains_eq, Bitfield.erase, hbyte]
  by_cases hdiv : index' / 8 = index / 8
  · rw [if_pos hdiv, bitSet_and, bitSet_not, bitSet_bitMask, hdiv, ← Bool.and_assoc]
    have hmod : index' % 8 = index % 8 ↔ index' = index := by omega
    rw [decide_eq_decide.mpr hmod]
  · have heq : ¬ index' = index := fun he => hdiv (by rw [he])
    rw [if_neg hdiv, decide_eq_false heq, Bool.not_false, Bool.and_true]

theorem mark_eq_ok_iff {f g : Bitfield} {index : Nat} {new : Bool} :
    f.mark index = .ok (new, g)
      ↔ index < f.pieceCount ∧ new = !f.contains index ∧ g = f.insert index := by
  unfold mark
  split
  · next h =>
    rw [Except.ok.injEq, Prod.mk.injEq]
    exact ⟨fun e => ⟨h, e.1.symm, e.2.symm⟩, fun e => ⟨e.2.1.symm, e.2.2.symm⟩⟩
  · next h => exact ⟨fun e => (by cases e), fun e => absurd e.1 h⟩

/-! ### All pieces -/

theorem loadByte_append {pieceCount : Nat} {bytes bytes' : Bytes} (position : Nat) :
    loadByte ⟨pieceCount, bytes ++ bytes'⟩ position
      = if position < bytes.length then loadByte ⟨pieceCount, bytes⟩ position
        else loadByte ⟨pieceCount, bytes'⟩ (position - bytes.length) := by
  simp only [loadByte, List.getD_eq_getElem?_getD, List.getElem?_append]
  split <;> rfl

theorem hasAll_append {pieceCount : Nat} {front : Bytes} {last : UInt8} :
    hasAll ⟨pieceCount, front ++ [last]⟩ = true
      ↔ (∀ b ∈ front, b = 0xff) ∧ last &&& lastByteMask pieceCount = lastByteMask pieceCount := by
  simp only [hasAll, List.getLast?_concat, List.dropLast_concat, Bool.and_eq_true, List.all_eq_true,
    beq_iff_eq]

/-- Nothing but the bits of pieces counts. -/
theorem hasAll_iff {f : Bitfield} (h : f.WellFormed) :
    f.hasAll = true ↔ ∀ index < f.pieceCount, f.contains index = true := by
  obtain ⟨pieceCount, bytes⟩ := f
  rw [WellFormed] at h
  rcases List.eq_nil_or_concat bytes with rfl | ⟨front, last, rfl⟩
  · rw [List.length_nil, bitfieldLength] at h
    exact ⟨fun _ index hindex => absurd hindex (by simp only; omega), fun _ => rfl⟩
  · rw [List.concat_eq_append, List.length_append, List.length_singleton, bitfieldLength] at h
    rw [List.concat_eq_append, hasAll_append]
    simp only at h ⊢
    constructor
    · rintro ⟨hfront, hlast⟩ index hindex
      rw [contains_eq, loadByte_append, decide_eq_true hindex, Bool.true_and]
      split
      · next hposition =>
        have hbyte : loadByte ⟨pieceCount, front⟩ (index / 8) = 0xff := by
          rw [loadByte_of_lt hposition]
          exact hfront _ (List.getElem_mem hposition)
        rw [hbyte, bitSet_full]
      · next hposition =>
        rw [show index / 8 - front.length = 0 by omega]
        have hbit := congrArg (fun b => bitSet b (index % 8)) hlast
        simp only [bitSet_and,
          bitSet_lastByteMask pieceCount (Nat.mod_lt index (by decide))] at hbit
        rw [decide_eq_true (by omega), Bool.and_true, bitSet_mod] at hbit
        exact hbit
    · intro hall
      constructor
      · intro b hb
        obtain ⟨position, hposition, rfl⟩ := List.getElem_of_mem hb
        apply byte_ext
        intro i hi
        have hindex := hall (8 * position + i) (by omega)
        rw [contains_eq, loadByte_append, Bool.and_eq_true,
          show (8 * position + i) / 8 = position by omega, if_pos hposition, ← bitSet_mod,
          show (8 * position + i) % 8 = i by omega, loadByte_of_lt hposition] at hindex
        rw [hindex.2, bitSet_full]
      · apply byte_ext
        intro i hi
        rw [bitSet_and, bitSet_lastByteMask pieceCount hi]
        by_cases hpiece : pieceCount % 8 = 0 ∨ i < pieceCount % 8
        · have hindex := hall (8 * front.length + i) (by omega)
          rw [contains_eq, loadByte_append, Bool.and_eq_true,
            show (8 * front.length + i) / 8 = front.length by omega,
            if_neg (Nat.lt_irrefl _), Nat.sub_self, ← bitSet_mod,
            show (8 * front.length + i) % 8 = i by omega] at hindex
          rw [decide_eq_true hpiece, Bool.and_true]
          exact hindex.2
        · rw [decide_eq_false hpiece, Bool.and_false]

/-! ### One truth value for each piece -/

@[simp] theorem length_bitsOfByte (b : UInt8) : (bitsOfByte b).length = 8 := by
  rw [bitsOfByte, List.length_map, List.length_range]

theorem getElem?_flatMap_bitsOfByte (bytes : Bytes) (index : Nat) :
    (bytes.flatMap bitsOfByte)[index]? = bytes[index / 8]?.map fun b => bitSet b index := by
  induction bytes generalizing index with
  | nil => rfl
  | cons b bytes ih =>
      rw [List.flatMap_cons, List.getElem?_append, length_bitsOfByte]
      split
      · next hindex =>
        rw [bitsOfByte, List.getElem?_map, List.getElem?_range hindex,
          Nat.div_eq_of_lt hindex, List.getElem?_cons_zero]
        rfl
      · next hindex =>
        obtain ⟨rest, rfl⟩ := Nat.exists_eq_add_of_le (Nat.le_of_not_lt hindex)
        rw [Nat.add_sub_cancel_left, ih, Nat.add_comm 8 rest, Nat.add_div_right rest (by decide),
          List.getElem?_cons_succ]
        congr 1
        funext b
        rw [← bitSet_mod, ← bitSet_mod b (rest + 8), Nat.add_mod_right]

theorem length_toBools {f : Bitfield} (h : f.WellFormed) : f.toBools.length = f.pieceCount := by
  have hbits : (f.bytes.flatMap bitsOfByte).length = 8 * f.bytes.length := by
    rw [List.length_flatMap]
    simp only [length_bitsOfByte, List.map_const', List.sum_replicate_nat, Nat.mul_comm]
  rw [toBools, List.length_take, hbits, h, bitfieldLength]
  omega

theorem getElem?_toBools {f : Bitfield} (h : f.WellFormed) {index : Nat}
    (hindex : index < f.pieceCount) : f.toBools[index]? = some (f.contains index) := by
  have hposition : index / 8 < f.bytes.length := h ▸ div_lt_bitfieldLength hindex
  rw [toBools, List.getElem?_take_of_lt hindex, getElem?_flatMap_bitsOfByte,
    List.getElem?_eq_getElem hposition, contains_eq, decide_eq_true hindex,
    loadByte_of_lt hposition]
  rfl

/-! ### Received bit fields -/

theorem length_maskLast (pieceCount : Nat) (bytes : Bytes) :
    (maskLast pieceCount bytes).length = bytes.length := by
  rcases List.eq_nil_or_concat bytes with rfl | ⟨front, last, rfl⟩
  · rfl
  · rw [List.concat_eq_append, maskLast, List.getLast?_concat, List.dropLast_concat]
    simp only [List.length_append, List.length_singleton]

theorem wellFormed_ofBytes {pieceCount : Nat} {bytes : Bytes} {f : Bitfield}
    (h : ofBytes pieceCount bytes = .ok f) : f.WellFormed ∧ f.pieceCount = pieceCount := by
  rw [ofBytes] at h
  split at h
  · cases h
  · next hlength =>
    cases h
    exact ⟨(length_maskLast _ _).trans (Decidable.not_not.mp hlength), rfl⟩

/-- A received bit field that is taken might as well have been saved. -/
theorem ofBytes_of_overwrite {f g : Bitfield} {bytes : Bytes} (h : f.overwrite bytes = .ok g) :
    ofBytes f.pieceCount bytes = .ok g := by
  rw [overwrite, validate] at h
  by_cases hlength : bytes.length = bitfieldLength f.pieceCount
  · rw [if_neg (not_not_intro hlength)] at h
    split at h
    · cases h
      rw [ofBytes, if_neg (not_not_intro hlength)]
    · cases h
  · rw [if_pos hlength] at h
    cases h

theorem wellFormed_overwrite {f g : Bitfield} {bytes : Bytes} (h : f.overwrite bytes = .ok g) :
    g.WellFormed ∧ g.pieceCount = f.pieceCount :=
  wellFormed_ofBytes (ofBytes_of_overwrite h)

theorem bitSet_maskLast {pieceCount : Nat} {bytes : Bytes}
    (hlength : bytes.length = bitfieldLength pieceCount) {index : Nat}
    (hindex : index < pieceCount) :
    bitSet (loadByte ⟨pieceCount, maskLast pieceCount bytes⟩ (index / 8)) index
      = bitSet (bytes.getD (index / 8) 0) index := by
  rcases List.eq_nil_or_concat bytes with rfl | ⟨front, last, rfl⟩
  · rfl
  · rw [List.concat_eq_append, List.length_append, List.length_singleton, bitfieldLength] at hlength
    rw [List.concat_eq_append, maskLast, List.getLast?_concat, List.dropLast_concat]
    show _ = bitSet (loadByte ⟨pieceCount, front ++ [last]⟩ (index / 8)) index
    rw [loadByte_append, loadByte_append]
    split
    · rfl
    · rw [show index / 8 - front.length = 0 by omega]
      show bitSet (last &&& lastByteMask pieceCount) index = bitSet last index
      rw [bitSet_and, ← bitSet_mod (lastByteMask pieceCount),
        bitSet_lastByteMask pieceCount (Nat.mod_lt index (by decide)), decide_eq_true (by omega),
        Bool.and_true]

theorem contains_ofBytes {pieceCount : Nat} {bytes : Bytes} {f : Bitfield}
    (h : ofBytes pieceCount bytes = .ok f) (index : Nat) : f.contains index
      = (decide (index < pieceCount) && bitSet (bytes.getD (index / 8) 0) index) := by
  obtain ⟨hwell, rfl⟩ := wellFormed_ofBytes h
  rw [ofBytes] at h
  split at h
  · cases h
  · next hlength =>
    have hmasked : ⟨f.pieceCount, maskLast f.pieceCount bytes⟩ = f := Except.ok.inj h
    rw [contains_eq]
    by_cases hindex : index < f.pieceCount
    · rw [← bitSet_maskLast (Decidable.not_not.mp hlength) hindex, hmasked]
    · rw [decide_eq_false hindex, Bool.false_and, Bool.false_and]

theorem contains_overwrite {f g : Bitfield} {bytes : Bytes} (h : f.overwrite bytes = .ok g)
    (index : Nat) : g.contains index
      = (decide (index < f.pieceCount) && bitSet (bytes.getD (index / 8) 0) index) :=
  contains_ofBytes (ofBytes_of_overwrite h) index

theorem not_contains_of_hasNone {f : Bitfield} (h : f.hasNone = true) (index : Nat) :
    f.contains index = false := by
  have hzero : f.loadByte (index / 8) = 0 := by
    rw [loadByte, List.getD_eq_getElem?_getD]
    cases hbyte : f.bytes[index / 8]? with
    | none => rfl
    | some b => exact beq_iff_eq.mp (List.all_eq_true.mp h b (List.mem_of_getElem? hbyte))
  rw [contains_eq, hzero, bitSet_zero, Bool.and_false]

/-! ### What is sent as a bit field -/

/-- The bits that belong to no piece are clear. -/
def Trimmed (f : Bitfield) : Prop :=
  ∀ last, f.bytes.getLast? = some last → last &&& ~~~lastByteMask f.pieceCount = 0

theorem trimmed_empty (pieceCount : Nat) : (empty pieceCount).Trimmed := by
  intro last hlast
  have hzero : last = 0 := (List.mem_replicate.mp (List.mem_of_getLast? hlast)).2
  rw [hzero]
  exact UInt8.zero_and

theorem trimmed_ofBytes {pieceCount : Nat} {bytes : Bytes} {f : Bitfield}
    (h : ofBytes pieceCount bytes = .ok f) : f.Trimmed := by
  rw [ofBytes] at h
  split at h
  · cases h
  cases h
  intro last hlast
  simp only at hlast ⊢
  rcases List.eq_nil_or_concat bytes with rfl | ⟨front, last', rfl⟩
  · cases hlast
  · rw [List.concat_eq_append, maskLast, List.getLast?_concat, List.dropLast_concat] at hlast
    simp only [List.getLast?_concat, Option.some.injEq] at hlast
    subst hlast
    apply byte_ext
    intro i hi
    rw [bitSet_and, bitSet_and, bitSet_not, bitSet_zero, Bool.and_assoc, Bool.and_not_self,
      Bool.and_false]

theorem trimmed_iff {f : Bitfield} (hwell : f.WellFormed) :
    f.Trimmed ↔ ∀ index, f.pieceCount ≤ index → bitSet (f.loadByte (index / 8)) index = false := by
  rw [WellFormed, bitfieldLength] at hwell
  constructor
  · intro h index hindex
    by_cases hposition : index / 8 < f.bytes.length
    · -- Then it is in the last byte.
      have hlast := h f.bytes[index / 8] (by
        rw [List.getLast?_eq_getElem?, show f.bytes.length - 1 = index / 8 by omega,
          List.getElem?_eq_getElem hposition])
      have hbit := congrArg (fun b => bitSet b (index % 8)) hlast
      simp only [bitSet_and, bitSet_not, bitSet_zero,
        bitSet_lastByteMask _ (Nat.mod_lt index (by decide))] at hbit
      have hbehind : ¬ (f.pieceCount % 8 = 0 ∨ index % 8 < f.pieceCount % 8) := by omega
      rw [decide_eq_false hbehind, Bool.not_false, Bool.and_true, bitSet_mod] at hbit
      rw [loadByte_of_lt hposition, hbit]
    · have hzero : f.loadByte (index / 8) = 0 := by
        rw [loadByte, List.getD_eq_getElem?_getD,
          List.getElem?_eq_none (Nat.le_of_not_lt hposition),
          Option.getD_none]
      rw [hzero, bitSet_zero]
  · intro h last hlast
    rw [List.getLast?_eq_getElem?] at hlast
    obtain ⟨hposition, hbyte⟩ := List.getElem?_eq_some_iff.mp hlast
    apply byte_ext
    intro i hi
    rw [bitSet_and, bitSet_not, bitSet_zero, bitSet_lastByteMask _ hi]
    by_cases hpiece : f.pieceCount % 8 = 0 ∨ i < f.pieceCount % 8
    · rw [decide_eq_true hpiece, Bool.not_true, Bool.and_false]
    · have hbit := h (8 * (f.bytes.length - 1) + i) (by omega)
      rw [show (8 * (f.bytes.length - 1) + i) / 8 = f.bytes.length - 1 by omega,
        loadByte_of_lt hposition, hbyte, ← bitSet_mod,
        show (8 * (f.bytes.length - 1) + i) % 8 = i by omega] at hbit
      rw [hbit, Bool.false_and]

theorem Trimmed.insert {f : Bitfield} (h : f.Trimmed) (hwell : f.WellFormed) {index : Nat}
    (hindex : index < f.pieceCount) : (f.insert index).Trimmed := by
  refine (trimmed_iff (hwell.insert index)).mpr fun index' hbehind => ?_
  have hbit := (trimmed_iff hwell).mp h index' hbehind
  have hbehind' : f.pieceCount ≤ index' := hbehind
  rw [Bitfield.insert, loadByte_set (hwell ▸ div_lt_bitfieldLength hindex)]
  split
  · next hsame =>
    have hother : ¬ index' % 8 = index % 8 := by omega
    rw [bitSet_or, bitSet_bitMask, decide_eq_false hother, Bool.or_false, ← hsame]
    exact hbit
  · exact hbit

theorem Trimmed.erase {f : Bitfield} (h : f.Trimmed) (hwell : f.WellFormed) {index : Nat}
    (hindex : index < f.pieceCount) : (f.erase index).Trimmed := by
  refine (trimmed_iff (hwell.erase index)).mpr fun index' hbehind => ?_
  have hbit := (trimmed_iff hwell).mp h index' hbehind
  rw [Bitfield.erase, loadByte_set (hwell ▸ div_lt_bitfieldLength hindex)]
  split
  · next hsame => rw [bitSet_and, ← hsame, hbit, Bool.false_and]
  · exact hbit

theorem Trimmed.maskLast_eq {f : Bitfield} (h : f.Trimmed) :
    maskLast f.pieceCount f.bytes = f.bytes := by
  rcases List.eq_nil_or_concat f.bytes with hnil | ⟨front, last, hbytes⟩
  · rw [hnil]
    rfl
  · rw [List.concat_eq_append] at hbytes
    have hlast := h last (by rw [hbytes, List.getLast?_concat])
    rw [hbytes, maskLast, List.getLast?_concat, List.dropLast_concat]
    show front ++ [last &&& lastByteMask f.pieceCount] = front ++ [last]
    congr 2
    apply byte_ext
    intro i hi
    have hbit := congrArg (fun b => bitSet b i) hlast
    simp only [bitSet_and, bitSet_not, bitSet_zero] at hbit ⊢
    cases hset : bitSet last i with
    | false => rfl
    | true =>
        rw [hset, Bool.true_and, Bool.not_eq_false'] at hbit
        rw [hbit]
        rfl

theorem ofBytes_bytes {f : Bitfield} (hwell : f.WellFormed) (htrimmed : f.Trimmed) :
    ofBytes f.pieceCount f.bytes = .ok f := by
  have hlength : ¬ f.bytes.length ≠ bitfieldLength f.pieceCount := not_not_intro hwell
  rw [ofBytes, if_neg hlength, htrimmed.maskLast_eq]

theorem validate_bytes {f : Bitfield} (hwell : f.WellFormed) (htrimmed : f.Trimmed) :
    validate f.pieceCount f.bytes = .ok () := by
  have hlength : ¬ f.bytes.length ≠ bitfieldLength f.pieceCount := not_not_intro hwell
  rw [validate, if_neg hlength]
  split
  · next last hlast => rw [if_neg (not_not_intro (htrimmed last hlast))]
  · rfl

theorem overwrite_bytes {f g : Bitfield} (hwell : g.WellFormed) (htrimmed : g.Trimmed)
    (hcount : g.pieceCount = f.pieceCount) : f.overwrite g.bytes = .ok g := by
  rw [overwrite, ← hcount, validate_bytes hwell htrimmed, htrimmed.maskLast_eq]

end Bitfield

end TorrentCore
