import Mathlib.Data.Set.Card
import Mathlib.Probability.Distributions.Uniform
import TorrentCore.Proofs.Selection

/-!
# How ties are broken

With fair coins each of the rarest candidates is suggested with the same probability. While the
candidates are met one after the other, the one that is held stands for all that it has tied with:
in the end it is suggested with their share of the probability. A rarer candidate starts afresh, so
those that were met before have no share.
-/

namespace TorrentCore

namespace Selection

open scoped ENNReal

/-- Each coin comes up with the probability that it should have. -/
def Fair (coin : Nat → PMF Bool) : Prop := ∀ n, 0 < n → coin n true = (n : ℝ≥0∞)⁻¹

variable {s : Selection} {coin : Nat → PMF Bool} {held : Held} {index : Nat}

theorem succ_mul_inv (n : Nat) : (n + 1 : ℝ≥0∞) * (n + 1 : ℝ≥0∞)⁻¹ = 1 := by
  rw [← Nat.cast_succ]
  exact ENNReal.mul_inv_cancel (Nat.cast_ne_zero.mpr n.succ_ne_zero) (ENNReal.natCast_ne_top _)

theorem Fair.heads (h : Fair coin) (n : Nat) : coin (n + 1) true = (n + 1 : ℝ≥0∞)⁻¹ := by
  rw [h (n + 1) n.succ_pos, Nat.cast_succ]

theorem Fair.tails (h : Fair coin) (n : Nat) : coin (n + 1) false = n * (n + 1 : ℝ≥0∞)⁻¹ := by
  have hsum := (coin (n + 1)).tsum_coe
  have hparts : (n + 1 : ℝ≥0∞)⁻¹ + n * (n + 1 : ℝ≥0∞)⁻¹ = 1 := by
    rw [← one_add_mul, add_comm 1, succ_mul_inv]
  rw [tsum_fintype, Fintype.sum_bool, h.heads] at hsum
  have hfinite : (n + 1 : ℝ≥0∞)⁻¹ ≠ ∞ := ENNReal.inv_ne_top.mpr (by simp)
  exact (ENNReal.add_right_inj hfinite).mp (hsum.trans hparts.symm)

/-- What a piece stands for: the ties of the one that is held, and once every time it is met. -/
def stake (held : Held) (indices : List Nat) (index : Nat) : Nat :=
  (if held.index = index then held.ties else 0) + indices.count index

/-- What all pieces that are as rare as this one stand for. -/
def stakes (s : Selection) (held : Held) (indices : List Nat) (index : Nat) : Nat :=
  (if held.rarity = s.rarity index then held.ties else 0)
    + indices.countP fun other => decide (s.rarity other = s.rarity index)

theorem stake_first (s : Selection) (first : Nat) (indices : List Nat) (index : Nat) :
    stake ⟨first, s.rarity first, 1⟩ indices index = (first :: indices).count index := by
  simp only [stake, List.count_cons, beq_iff_eq, Nat.add_comm]

theorem stakes_first (s : Selection) (first : Nat) (indices : List Nat) (index : Nat) :
    stakes s ⟨first, s.rarity first, 1⟩ indices index
      = (first :: indices).countP fun other => decide (s.rarity other = s.rarity index) := by
  simp only [stakes, List.countP_cons, decide_eq_true_iff, Nat.add_comm]

theorem stakes_of_tie {first : Nat} (h : s.rarity first = held.rarity) (kept : Nat)
    (indices : List Nat) (index : Nat) :
    stakes s { held with index := kept, ties := held.ties + 1 } indices index
      = stakes s held (first :: indices) index := by
  simp only [stakes, List.countP_cons, h, decide_eq_true_iff]
  split <;> omega

/-- What a piece stands for is the mean over the outcomes of the coin. -/
theorem stake_of_tie (held : Held) (first : Nat) (indices : List Nat) (index : Nat) :
    stake { held with index := first, ties := held.ties + 1 } indices index
        + held.ties * stake { held with ties := held.ties + 1 } indices index
      = (held.ties + 1) * stake held (first :: indices) index := by
  simp only [stake, List.count_cons, beq_iff_eq]
  split <;> split <;> ring

theorem mean_div {n heads tails mean : Nat} (h : heads + n * tails = (n + 1) * mean) (d : ℝ≥0∞) :
    (n + 1 : ℝ≥0∞)⁻¹ * (heads / d) + n * (n + 1 : ℝ≥0∞)⁻¹ * (tails / d) = mean / d := by
  have hcast : (heads + n * tails : ℝ≥0∞) = (n + 1) * mean := mod_cast h
  calc (n + 1 : ℝ≥0∞)⁻¹ * (heads / d) + n * (n + 1 : ℝ≥0∞)⁻¹ * (tails / d)
      = (n + 1 : ℝ≥0∞)⁻¹ * (heads + n * tails) * d⁻¹ := by simp only [div_eq_mul_inv]; ring
    _ = (n + 1 : ℝ≥0∞) * (n + 1 : ℝ≥0∞)⁻¹ * (mean / d) := by
        rw [hcast, div_eq_mul_inv]
        ring
    _ = mean / d := by rw [succ_mul_inv, one_mul]

/-- Once a candidate is held, a piece that is among the rarest comes out in proportion to what it
stands for. -/
theorem suggestAmong_apply (hfair : Fair coin) (held : Held) (indices : List Nat)
    (hheld : held.rarity = s.rarity held.index) (hties : 0 < held.ties)
    (hle : s.rarity index ≤ held.rarity)
    (hmin : ∀ other ∈ indices, s.rarity index ≤ s.rarity other) :
    s.suggestAmong coin (some held) indices (.piece index)
      = (stake held indices index : ℝ≥0∞) / stakes s held indices index := by
  induction indices generalizing held with
  | nil =>
      rw [suggestAmong_nil]
      show PMF.pure (Suggestion.piece held.index) (.piece index) = _
      rw [PMF.pure_apply]
      by_cases hsame : held.index = index
      · have hrarity : held.rarity = s.rarity index := hsame ▸ hheld
        simp only [stake, stakes, hsame, hrarity, if_true, List.count_nil, List.countP_nil,
          Nat.add_zero]
        exact (ENNReal.div_self (Nat.cast_ne_zero.mpr hties.ne') (ENNReal.natCast_ne_top _)).symm
      · have hother : ¬ Suggestion.piece index = .piece held.index := fun heq =>
          hsame (Suggestion.piece.inj heq).symm
        rw [if_neg hother, stake, if_neg hsame, List.count_nil, Nat.cast_zero, ENNReal.zero_div]
  | cons first indices ih =>
      obtain ⟨hfirst, hrest⟩ := List.forall_mem_cons.mp hmin
      by_cases hcommoner : held.rarity < s.rarity first
      · have hrarity : ¬ s.rarity first = s.rarity index := fun heq =>
          UInt32.not_lt.mpr hle (heq ▸ hcommoner)
        have hother : ¬ first = index := fun heq => hrarity (congrArg s.rarity heq)
        rw [suggestAmong_of_commoner hcommoner, ih held hheld hties hle hrest, stake, stake,
          stakes, stakes,
          List.count_cons_of_ne hother, List.countP_cons_of_neg (by simpa using hrarity)]
      by_cases htie : s.rarity first = held.rarity
      · rw [suggestAmong_of_tie htie]
        show (coin (held.ties + 1)).bind _ (Suggestion.piece index) = _
        rw [PMF.bind_apply, tsum_fintype, Fintype.sum_bool, hfair.heads, hfair.tails]
        simp only [if_true, Bool.false_eq_true, if_false]
        rw [ih { held with index := first, ties := held.ties + 1 } htie.symm
            held.ties.succ_pos hle hrest,
          ih { held with ties := held.ties + 1 } hheld held.ties.succ_pos hle hrest,
          stakes_of_tie htie, stakes_of_tie htie]
        exact mean_div (stake_of_tie held first indices index) _
      · have hrarer : s.rarity first < held.rarity :=
          UInt32.lt_of_le_of_ne (UInt32.not_lt.mp hcommoner) htie
        have hrarity : ¬ held.rarity = s.rarity index := fun heq =>
          UInt32.not_lt.mpr hfirst (heq ▸ hrarer)
        have hother : ¬ held.index = index := fun heq =>
          hrarity (hheld.trans (congrArg s.rarity heq))
        rw [suggestAmong_of_rarer hrarer,
          ih ⟨first, s.rarity first, 1⟩ rfl Nat.one_pos hfirst hrest]
        simp only [stake, stakes, if_neg hrarity, if_neg hother, List.count_cons, List.countP_cons,
          beq_iff_eq, decide_eq_true_iff, Nat.zero_add, Nat.add_comm]

theorem countP_candidates (h : s.Rarest index) :
    (s.candidates.countP fun other => decide (s.rarity other = s.rarity index))
      = {other | s.Rarest other}.ncard := by
  have hset : {other | s.Rarest other}
      = ↑(s.candidates.filter fun other => decide (s.rarity other = s.rarity index)).toFinset := by
    ext other
    simp only [Set.mem_ofPred_eq, List.coe_toFinset, List.mem_filter, mem_candidates,
      decide_eq_true_eq]
    constructor
    · exact fun hother => ⟨hother.candidate,
        UInt32.le_antisymm (hother.le index h.candidate) (h.le other hother.candidate)⟩
    · exact fun ⟨hcandidate, hsame⟩ => ⟨hcandidate, fun third hthird => hsame ▸ h.le third hthird⟩
  rw [hset, Set.ncard_coe_finset, List.toFinset_card_of_nodup (nodup_candidates.filter _),
    List.countP_eq_length_filter]

/-- With fair coins each of the rarest candidates is suggested with the same probability. -/
theorem suggest_uniform (hfair : Fair coin) (h : s.Rarest index) :
    s.suggest coin (.piece index) = ({other | s.Rarest other}.ncard : ℝ≥0∞)⁻¹ := by
  have hmem := mem_candidates.mpr h.candidate
  have honce := List.count_eq_one_of_mem nodup_candidates hmem
  rw [suggest_eq_suggestAmong, ← countP_candidates h]
  cases hcandidates : s.candidates with
  | nil => exact absurd (hcandidates ▸ hmem) List.not_mem_nil
  | cons first indices =>
      have hmin : ∀ other ∈ first :: indices, s.rarity index ≤ s.rarity other := fun other hother =>
        h.le other (mem_candidates.mp (hcandidates ▸ hother))
      obtain ⟨hfirst, hrest⟩ := List.forall_mem_cons.mp hmin
      rw [suggestAmong_first,
        suggestAmong_apply hfair ⟨first, s.rarity first, 1⟩ indices rfl Nat.one_pos hfirst
          hrest, stake_first, stakes_first, ← hcandidates, honce, Nat.cast_one, one_div]

/-- The coin that comes up when one out of `n` comes first. -/
noncomputable def drawnCoin (n : Nat) : PMF Bool :=
  (PMF.uniformOfFintype (Fin (n - 1 + 1))).map fun drawn => decide (drawn = 0)

theorem fair_drawnCoin : Fair drawnCoin := by
  intro n hn
  have hdrawn (drawn : Fin (n - 1 + 1)) : true = decide (drawn = 0) ↔ drawn = 0 := by
    rw [eq_comm, decide_eq_true_iff]
  simp only [drawnCoin, PMF.map_apply, PMF.uniformOfFintype_apply, hdrawn]
  rw [tsum_ite_eq, Fintype.card_fin, Nat.sub_add_cancel hn]

/-- Rarer and commoner candidates come before, between and after the three rarest ones. -/
def threeRarest : Selection where
  pieceCount := 10
  ours := ⟨#[0x08]⟩
  peer := ⟨#[0xff, 0xff]⟩
  reserved := none
  allowed := none
  availability := some #[5, 3, 2, 4, 0, 3, 2, 6, 2, 7]

theorem suggest_uniform_threeRarest :
    threeRarest.suggest drawnCoin (.piece 6) = (3 : ℝ≥0∞)⁻¹ := by
  have hrarest : threeRarest.Rarest 6 :=
    ⟨mem_candidates.mp (by decide), fun other hother =>
      (by decide : ∀ other ∈ threeRarest.candidates, threeRarest.rarity 6 ≤ threeRarest.rarity other)
        other (mem_candidates.mpr hother)⟩
  have hcount : {other | threeRarest.Rarest other}.ncard = 3 := by
    rw [← countP_candidates hrarest]
    decide
  rw [suggest_uniform fair_drawnCoin hrarest, hcount]
  rfl

end Selection

end TorrentCore
