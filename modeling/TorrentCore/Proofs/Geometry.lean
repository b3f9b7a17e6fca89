import Mathlib.Algebra.Order.BigOperators.Group.Finset
import TorrentCore.Geometry

/-!
# Pieces side by side

What `Geometry.make` accepts is `Sound`: no word wrapped, and the pieces fill the torrent. From that
on the offsets are plain products, and the ranges of two pieces have no byte in common, which is
all that storing pieces one by one asks for.
-/

namespace TorrentCore

namespace Geometry

/-- The pieces are as long as they say and end where the torrent does. -/
structure Sound (g : Geometry) : Prop where
  pieceLength_pos : 0 < g.pieceLength.toNat
  blockLength_pos : 0 < g.blockLength.toNat
  lastPieceLength_pos : 0 < g.lastPieceLength.toNat
  lastPieceLength_le : g.lastPieceLength.toNat ≤ g.pieceLength.toNat
  lastPiece_lt : g.lastPiece.toNat + 1 < 4294967296
  total_eq : g.totalLength.toNat
    = g.lastPiece.toNat * g.pieceLength.toNat + g.lastPieceLength.toNat

theorem toUInt64_ne_zero {w : UInt32} (h : 0 < w.toNat) : w.toUInt64 ≠ 0 := fun he => by
  have hzero := congrArg UInt64.toNat he
  rw [UInt32.toNat_toUInt64, UInt64.toNat_zero] at hzero
  omega

/-- If something is left over, an element is more than one byte. -/
theorem quotient_succ_lt {total element : UInt64} (helement : element ≠ 0)
    (h : ¬ total % element = 0) :
    total.toNat / element.toNat + 1 < 18446744073709551616 := by
  have hlt := total.toNat_lt
  have hmany : 2 ≤ element.toNat := by
    have hpos : element.toNat ≠ 0 := fun he => helement (UInt64.toNat_inj.mp he)
    have hone : element.toNat ≠ 1 := fun he => h (UInt64.toNat_inj.mp (by
      rw [UInt64.toNat_mod, he, Nat.mod_one]
      rfl))
    omega
  have hhalf : total.toNat / element.toNat ≤ total.toNat / 2 :=
    Nat.div_le_div_left hmany (by decide)
  omega

theorem toNat_ceilDiv_mul {total element : UInt64} (htotal : total ≠ 0) (helement : element ≠ 0) :
    0 < (ceilDiv total element).toNat ∧ 0 < (lastElementSize total element).toNat
      ∧ (lastElementSize total element).toNat ≤ element.toNat
      ∧ total.toNat = ((ceilDiv total element).toNat - 1) * element.toNat
        + (lastElementSize total element).toNat := by
  have hpos : 0 < element.toNat := Nat.pos_of_ne_zero fun h => helement (UInt64.toNat_inj.mp h)
  have hpos' : 0 < total.toNat := Nat.pos_of_ne_zero fun h => htotal (UInt64.toNat_inj.mp h)
  have hsplit := Nat.div_add_mod total.toNat element.toNat
  have hless := Nat.mod_lt total.toNat hpos
  have hlt := total.toNat_lt
  unfold ceilDiv lastElementSize
  by_cases hmod : total % element = 0
  · have hzero : total.toNat % element.toNat = 0 := by
      rw [← UInt64.toNat_mod, hmod]
      rfl
    have hquotient_pos : 0 < total.toNat / element.toNat :=
      Nat.div_pos (Nat.le_of_dvd hpos' (Nat.dvd_of_mod_eq_zero hzero)) hpos
    rw [if_pos hmod, if_pos hmod, UInt64.toNat_div]
    refine ⟨hquotient_pos, hpos, Nat.le_refl _, ?_⟩
    rw [Nat.sub_mul, Nat.one_mul, Nat.sub_add_cancel, Nat.mul_comm]
    · omega
    · exact Nat.le_mul_of_pos_left _ hquotient_pos
  · have hrest : 0 < total.toNat % element.toNat := Nat.pos_of_ne_zero fun h => by
      apply hmod
      apply UInt64.toNat_inj.mp
      rw [UInt64.toNat_mod, h]
      rfl
    have hsmall := quotient_succ_lt helement hmod
    rw [if_neg hmod, if_neg hmod, UInt64.toNat_add, UInt64.toNat_div, UInt64.toNat_mod]
    have hword : (total.toNat / element.toNat + (1 : UInt64).toNat) % 2 ^ 64
        = total.toNat / element.toNat + 1 := Nat.mod_eq_of_lt hsmall
    rw [hword, Nat.add_sub_cancel, Nat.mul_comm]
    exact ⟨Nat.succ_pos _, hrest, Nat.le_of_lt hless, hsplit.symm⟩

/-- How many parts of one length a whole is cut into, if the last one may be shorter. -/
def cutCount (total part : Nat) : Nat := (total + part - 1) / part

theorem lt_cutCount_iff {total part k : Nat} (hpart : 0 < part) :
    k < cutCount total part ↔ k * part < total := by
  rw [cutCount, ← Nat.succ_le_iff, Nat.le_div_iff_mul_le hpart, Nat.succ_mul]
  omega

/-- Parts are at least one byte long, so there are no more of them than bytes. -/
theorem cutCount_le {total part : Nat} (hpart : 0 < part) : cutCount total part ≤ total := by
  by_contra hmore
  have hless := (lt_cutCount_iff hpart).mp (Nat.lt_of_not_le hmore)
  have := Nat.le_mul_of_pos_right total hpart
  omega

theorem toNat_ceilDiv {total element : UInt64} (htotal : total ≠ 0) (helement : element ≠ 0) :
    (ceilDiv total element).toNat = cutCount total.toNat element.toNat := by
  obtain ⟨hcount_pos, hlast_pos, hlast_le, hsum⟩ := toNat_ceilDiv_mul htotal helement
  have hwhole := Nat.le_mul_of_pos_left element.toNat hcount_pos
  rw [cutCount, hsum]
  refine (Nat.div_eq_of_lt_le ?_ ?_).symm
  · rw [Nat.sub_mul, Nat.one_mul]
    omega
  · rw [Nat.sub_mul, Nat.one_mul, Nat.succ_mul]
    omega

theorem sound_of_make {total : UInt64} {pieceLength blockLength : UInt32} {g : Geometry}
    (h : make total pieceLength blockLength = .ok g) : g.Sound := by
  unfold make at h
  split at h
  · cases h
  next htotal =>
  split at h
  · cases h
  next hpiece =>
  split at h
  · cases h
  next hblock =>
  simp only at h
  split at h
  · cases h
  next hcount =>
  cases h
  have hblock' : blockLength ≠ 0 := by
    rintro rfl
    exact hblock (by decide)
  have hblock_pos : 0 < blockLength.toNat := Nat.pos_of_ne_zero fun he =>
    hblock' (UInt32.toNat_inj.mp he)
  have hpiece_pos : 0 < pieceLength.toNat := Nat.pos_of_ne_zero fun he =>
    hpiece (UInt32.toNat_inj.mp he)
  have hlt := pieceLength.toNat_lt
  obtain ⟨hcount_pos, hlast_pos, hlast_le, hsum⟩ :=
    toNat_ceilDiv_mul htotal (toUInt64_ne_zero hpiece_pos)
  have hcount_le : (ceilDiv total pieceLength.toUInt64).toNat ≤ 4294967295 :=
    Nat.le_of_not_lt fun he => hcount (UInt64.lt_iff_toNat_lt.mpr he)
  rw [UInt32.toNat_toUInt64] at hlast_le hsum
  have hlast : (lastElementSize total pieceLength.toUInt64).toUInt32.toNat
      = (lastElementSize total pieceLength.toUInt64).toNat := by
    rw [UInt64.toNat_toUInt32]
    omega
  have hindex : ((ceilDiv total pieceLength.toUInt64).toUInt32 - 1).toNat
      = (ceilDiv total pieceLength.toUInt64).toNat - 1 := by
    rw [UInt32.toNat_sub_of_le, UInt64.toNat_toUInt32]
    · show _ % 2 ^ 32 - 1 = _
      omega
    · rw [UInt32.le_iff_toNat_le, UInt64.toNat_toUInt32]
      show 1 ≤ _ % 2 ^ 32
      omega
  refine ⟨hpiece_pos, ?_, ?_, ?_, ?_, ?_⟩
  · show 0 < (if blockLength ≤ pieceLength then blockLength else pieceLength).toNat
    split <;> assumption
  · show 0 < (lastElementSize total pieceLength.toUInt64).toUInt32.toNat
    omega
  · show (lastElementSize total pieceLength.toUInt64).toUInt32.toNat ≤ pieceLength.toNat
    omega
  · show ((ceilDiv total pieceLength.toUInt64).toUInt32 - 1).toNat + 1 < 4294967296
    omega
  · show total.toNat = ((ceilDiv total pieceLength.toUInt64).toUInt32 - 1).toNat * pieceLength.toNat
      + (lastElementSize total pieceLength.toUInt64).toUInt32.toNat
    rw [hindex, hlast]
    exact hsum

theorem totalLength_of_make {total : UInt64} {pieceLength blockLength : UInt32} {g : Geometry}
    (h : make total pieceLength blockLength = .ok g) : g.totalLength = total := by
  unfold make at h
  simp only at h
  repeat' split at h
  all_goals cases h
  rfl

theorem Sound.toNat_pieceCount {g : Geometry} (h : g.Sound) :
    g.pieceCount.toNat = g.lastPiece.toNat + 1 := by
  rw [pieceCount, UInt32.toNat_add]
  exact Nat.mod_eq_of_lt h.lastPiece_lt

/-- Offsets do not wrap, for they are products of two half words. -/
theorem toNat_offsetOf (g : Geometry) (p : PieceIndex) :
    (g.offsetOf p).toNat = p.val.toNat * g.pieceLength.toNat := by
  have hp := p.val.toNat_lt
  have hl := g.pieceLength.toNat_lt
  have hproduct : p.val.toNat * g.pieceLength.toNat ≤ 4294967295 * 4294967295 :=
    Nat.mul_le_mul (by omega) (by omega)
  rw [offsetOf, UInt64.toNat_mul, UInt32.toNat_toUInt64, UInt32.toNat_toUInt64]
  omega

theorem Sound.lengthOf_le {g : Geometry} (h : g.Sound) (p : PieceIndex) :
    (g.lengthOf p).toNat ≤ g.pieceLength.toNat := by
  unfold lengthOf
  split
  · exact h.lastPieceLength_le
  · exact Nat.le_refl _

theorem Sound.disjoint {g : Geometry} (h : g.Sound) {p q : PieceIndex} (hne : p ≠ q) :
    (g.offsetOf p).toNat + (g.lengthOf p).toNat ≤ (g.offsetOf q).toNat
      ∨ (g.offsetOf q).toNat + (g.lengthOf q).toNat ≤ (g.offsetOf p).toNat := by
  have hbefore : ∀ a b : PieceIndex, a.val.toNat < b.val.toNat →
      (g.offsetOf a).toNat + (g.lengthOf a).toNat ≤ (g.offsetOf b).toNat := by
    intro a b hab
    have hlength := h.lengthOf_le a
    have hnext : (a.val.toNat + 1) * g.pieceLength.toNat ≤ b.val.toNat * g.pieceLength.toNat :=
      Nat.mul_le_mul_right _ hab
    rw [Nat.succ_mul] at hnext
    rw [toNat_offsetOf, toNat_offsetOf]
    omega
  have hval : p.val.toNat ≠ q.val.toNat := fun he =>
    hne (by cases p; cases q; exact congrArg PieceIndex.mk (UInt32.toNat_inj.mp he))
  rcases Nat.lt_or_gt_of_ne hval with hlt | hlt
  · exact Or.inl (hbefore p q hlt)
  · exact Or.inr (hbefore q p hlt)

def stop (g : Geometry) (index : Nat) : Nat :=
  (g.offsetOf ⟨UInt32.ofNat index⟩).toNat + (g.lengthOf ⟨UInt32.ofNat index⟩).toNat

theorem Sound.toNat_index {g : Geometry} (h : g.Sound) {index : Nat}
    (hindex : index < g.pieceCount.toNat) : (UInt32.ofNat index).toNat = index := by
  have hlt := h.lastPiece_lt
  rw [h.toNat_pieceCount] at hindex
  rw [UInt32.toNat_ofNat']
  exact Nat.mod_eq_of_lt (by omega)

theorem Sound.piece?_eq {g : Geometry} (h : g.Sound) {index : Nat}
    (hindex : index < g.pieceCount.toNat) :
    g.piece? (UInt32.ofNat index) = some ⟨UInt32.ofNat index⟩ := by
  have hvalue := h.toNat_index hindex
  rw [h.toNat_pieceCount] at hindex
  rw [piece?, if_neg]
  rw [UInt32.lt_iff_toNat_lt, hvalue]
  omega

theorem Sound.stop_eq {g : Geometry} (h : g.Sound) {index : Nat}
    (hindex : index < g.pieceCount.toNat) :
    g.stop index = if index = g.lastPiece.toNat then g.totalLength.toNat
      else (index + 1) * g.pieceLength.toNat := by
  have hvalue := h.toNat_index hindex
  rw [stop, toNat_offsetOf, lengthOf, hvalue]
  by_cases hlast : index = g.lastPiece.toNat
  · rw [if_pos hlast, if_pos (UInt32.toNat_inj.mp (hvalue.trans hlast)), hlast, h.total_eq]
  · rw [if_neg hlast, if_neg fun he => hlast (hvalue.symm.trans (congrArg UInt32.toNat he)),
      Nat.succ_mul]

theorem Sound.stop_mono {g : Geometry} (h : g.Sound) {index index' : Nat} (hle : index ≤ index')
    (hindex : index' < g.pieceCount.toNat) : g.stop index ≤ g.stop index' := by
  rcases Nat.lt_or_eq_of_le hle with hlt | rfl
  · have hbefore : index < g.pieceCount.toNat := Nat.lt_trans hlt hindex
    rw [h.toNat_pieceCount] at hindex
    have hnext : (index + 1) * g.pieceLength.toNat ≤ index' * g.pieceLength.toNat :=
      Nat.mul_le_mul_right _ hlt
    rw [h.stop_eq hbefore, if_neg (by omega), stop, toNat_offsetOf,
      h.toNat_index (h.toNat_pieceCount ▸ hindex)]
    omega
  · exact Nat.le_refl _

theorem Sound.stop_le {g : Geometry} (h : g.Sound) {index : Nat}
    (hindex : index < g.pieceCount.toNat) : g.stop index ≤ g.totalLength.toNat := by
  have hlast : g.lastPiece.toNat < g.pieceCount.toNat := by
    rw [h.toNat_pieceCount]
    exact Nat.lt_succ_self _
  have hle : index ≤ g.lastPiece.toNat := by
    rw [h.toNat_pieceCount] at hindex
    exact Nat.le_of_lt_succ hindex
  have hmono := h.stop_mono hle hlast
  rwa [h.stop_eq hlast, if_pos rfl] at hmono

theorem Sound.sum_lengthOf {g : Geometry} (h : g.Sound) {index : Nat}
    (hindex : index < g.pieceCount.toNat) :
    ∑ before ∈ Finset.range (index + 1), (g.lengthOf ⟨UInt32.ofNat before⟩).toNat
      = g.stop index := by
  rw [Finset.sum_range_succ]
  cases index with
  | zero =>
      rw [Finset.range_zero, Finset.sum_empty, stop, toNat_offsetOf, h.toNat_index hindex,
        Nat.zero_mul]
  | succ index =>
      have hbefore : index < g.pieceCount.toNat := Nat.lt_of_succ_lt hindex
      have hnotLast : index ≠ g.lastPiece.toNat := by
        rw [h.toNat_pieceCount] at hindex
        omega
      rw [h.sum_lengthOf hbefore, h.stop_eq hbefore, if_neg hnotLast, stop, toNat_offsetOf,
        h.toNat_index hindex]

theorem Sound.sum_lengthOf_le {g : Geometry} (h : g.Sound) {indices : Finset Nat}
    (hindices : indices ⊆ Finset.range g.pieceCount.toNat) :
    ∑ index ∈ indices, (g.lengthOf ⟨UInt32.ofNat index⟩).toNat ≤ g.totalLength.toNat := by
  have hlast : g.lastPiece.toNat < g.pieceCount.toNat := by
    rw [h.toNat_pieceCount]
    exact Nat.lt_succ_self _
  calc ∑ index ∈ indices, (g.lengthOf ⟨UInt32.ofNat index⟩).toNat
      ≤ ∑ index ∈ Finset.range g.pieceCount.toNat, (g.lengthOf ⟨UInt32.ofNat index⟩).toNat :=
        Finset.sum_le_sum_of_subset hindices
    _ = g.stop g.lastPiece.toNat := by
        rw [h.toNat_pieceCount]
        exact h.sum_lengthOf hlast
    _ ≤ g.totalLength.toNat := h.stop_le hlast

/-- The blocks do not matter for where the pieces are. -/
theorem make_pieces {total : UInt64} {pieceLength blockLength blockLength' : UInt32}
    {g g' : Geometry} (h : make total pieceLength blockLength = .ok g)
    (h' : make total pieceLength blockLength' = .ok g') :
    g'.pieceCount = g.pieceCount ∧ g'.offsetOf = g.offsetOf ∧ g'.lengthOf = g.lengthOf := by
  unfold make at h h'
  simp only at h h'
  repeat' split at h
  all_goals cases h
  repeat' split at h'
  all_goals cases h'
  exact ⟨rfl, rfl, rfl⟩

theorem piece?_eq_some {g : Geometry} {index : UInt32} {p : PieceIndex}
    (h : g.piece? index = some p) : p = ⟨index⟩ := by
  unfold piece? at h
  split at h
  · cases h
  · exact (Option.some.inj h).symm

end Geometry

end TorrentCore
