import TorrentCore.Proofs.Selection

/-!
# The rarest candidates

What is suggested, seen from outside: nothing if there is no candidate, and otherwise a rarest one.
No rarest candidate is left out: for each of them there are coins that pick it. When its turn comes
it is taken, and from then on every coin comes up tails.
-/

namespace TorrentCore

namespace Selection

variable {s : Selection} {held : Held} {indices : List Nat} {index : Nat}

abbrev scripted (s : Selection) (held : Option Held) (indices : List Nat) (outcomes : List Bool) :
    Suggestion :=
  ((s.suggestAmong scriptedCoin held indices : StateM (List Bool) Suggestion) outcomes).1

/-- A candidate that nobody rarer follows stays when all coins come up tails. -/
theorem scripted_keeps (held : Held) (hmin : ∀ other ∈ indices, held.rarity ≤ s.rarity other) :
    s.scripted (some held) indices [] = .piece held.index := by
  induction indices generalizing held with
  | nil =>
      rw [scripted, suggestAmong_nil]
      rfl
  | cons first indices ih =>
      obtain ⟨hfirst, hrest⟩ := List.forall_mem_cons.mp hmin
      by_cases htie : s.rarity first = held.rarity
      · rw [scripted, suggestAmong_of_tie htie]
        exact ih { held with ties := held.ties + 1 } hrest
      · have hcommoner : held.rarity < s.rarity first :=
          UInt32.lt_of_le_of_ne hfirst fun heq => htie heq.symm
        rw [scripted, suggestAmong_of_commoner hcommoner]
        exact ih held hrest

theorem exists_scripted (held : Held) (hmem : index ∈ indices)
    (hheld : s.rarity index ≤ held.rarity)
    (hmin : ∀ other ∈ indices, s.rarity index ≤ s.rarity other) :
    ∃ outcomes, s.scripted (some held) indices outcomes = .piece index := by
  induction indices generalizing held with
  | nil => cases hmem
  | cons first indices ih =>
      obtain ⟨hfirst, hrest⟩ := List.forall_mem_cons.mp hmin
      by_cases hcommoner : held.rarity < s.rarity first
      · -- It is not the first one, because that is passed over.
        have hlater : index ∈ indices := by
          rcases List.mem_cons.mp hmem with rfl | hlater
          · exact absurd hcommoner (UInt32.not_lt.mpr hheld)
          · exact hlater
        obtain ⟨outcomes, hresult⟩ := ih held hlater hheld hrest
        refine ⟨outcomes, ?_⟩
        rw [scripted, suggestAmong_of_commoner hcommoner]
        exact hresult
      by_cases htie : s.rarity first = held.rarity
      · rcases List.mem_cons.mp hmem with rfl | hlater
        · refine ⟨[true], ?_⟩
          rw [scripted, suggestAmong_of_tie htie]
          exact scripted_keeps ⟨index, held.rarity, held.ties + 1⟩ (htie ▸ hrest)
        · obtain ⟨outcomes, hresult⟩ :=
            ih { held with ties := held.ties + 1 } hlater hheld hrest
          refine ⟨false :: outcomes, ?_⟩
          rw [scripted, suggestAmong_of_tie htie]
          exact hresult
      · have hrarer : s.rarity first < held.rarity :=
          UInt32.lt_of_le_of_ne (UInt32.not_lt.mp hcommoner) htie
        rcases List.mem_cons.mp hmem with rfl | hlater
        · refine ⟨[], ?_⟩
          rw [scripted, suggestAmong_of_rarer hrarer]
          exact scripted_keeps ⟨index, s.rarity index, 1⟩ hrest
        · obtain ⟨outcomes, hresult⟩ := ih ⟨first, s.rarity first, 1⟩ hlater hfirst hrest
          refine ⟨outcomes, ?_⟩
          rw [scripted, suggestAmong_of_rarer hrarer]
          exact hresult

theorem Rarest.exists_scripted (h : s.Rarest index) :
    ∃ outcomes, s.scripted none s.candidates outcomes = .piece index := by
  have hmem := mem_candidates.mpr h.candidate
  have hmin : ∀ other ∈ s.candidates, s.rarity index ≤ s.rarity other := fun other hother =>
    h.le other (mem_candidates.mp hother)
  cases hcandidates : s.candidates with
  | nil => exact absurd (hcandidates ▸ hmem) List.not_mem_nil
  | cons first indices =>
      rw [hcandidates] at hmem hmin
      obtain ⟨hfirst, hrest⟩ := List.forall_mem_cons.mp hmin
      simp only [scripted, suggestAmong_first]
      rcases List.mem_cons.mp hmem with rfl | hlater
      · exact ⟨[], scripted_keeps ⟨index, s.rarity index, 1⟩ hrest⟩
      · exact Selection.exists_scripted ⟨first, s.rarity first, 1⟩ hlater hfirst hrest

/-- If there is no candidate, what is suggested tells whether a piece is missing at all. If there
are some, one of the rarest is suggested, whatever the source of the coins is, and each of these is
suggested for some coins. -/
theorem suggests_rarest (s : Selection) :
    ((¬ ∃ index, s.Candidate index) → ∀ (σ : Type) (coin : Nat → StateM σ Bool) (outcomes : σ),
        ((s.suggest coin : StateM σ Suggestion) outcomes).1
          = if ∀ index < s.pieceCount, s.ours.has index = true then .complete else .noneAvailable)
      ∧ ((∃ index, s.Candidate index) → ∀ (σ : Type) (coin : Nat → StateM σ Bool) (outcomes : σ),
        ∃ index, s.Rarest index
          ∧ ((s.suggest coin : StateM σ Suggestion) outcomes).1 = .piece index)
      ∧ ∀ index, s.Rarest index → ∃ outcomes,
        ((s.suggest scriptedCoin : StateM (List Bool) Suggestion) outcomes).1 = .piece index := by
  refine ⟨fun hnone σ coin outcomes => ?_,
    fun hsome σ coin outcomes => exists_rarest_suggest coin outcomes hsome,
    fun index h => h.exists_scripted⟩
  rw [suggest_of_none hnone]
  exact if_congr haveAll_iff rfl rfl

/-- Of five pieces the peer has the last four; the second and the last are equally rare. -/
def twoRarest : Selection where
  pieceCount := 5
  ours := ⟨#[]⟩
  peer := ⟨#[0x7f]⟩
  reserved := none
  allowed := none
  availability := some #[0, 1, 2, 3, 1]

theorem suggests_rarest_twoRarest : (∃ outcomes,
      ((twoRarest.suggest scriptedCoin : StateM (List Bool) Suggestion) outcomes).1 = .piece 1)
    ∧ (∃ outcomes,
      ((twoRarest.suggest scriptedCoin : StateM (List Bool) Suggestion) outcomes).1 = .piece 4)
    ∧ ∀ outcomes, ∃ index, twoRarest.Rarest index
      ∧ ((twoRarest.suggest scriptedCoin : StateM (List Bool) Suggestion) outcomes).1
        = .piece index := by
  have hrarest : ∀ index, index ∈ twoRarest.candidates →
      (∀ other ∈ twoRarest.candidates, twoRarest.rarity index ≤ twoRarest.rarity other) →
      twoRarest.Rarest index := fun index hmem hmin =>
    ⟨mem_candidates.mp hmem, fun other hother => hmin other (mem_candidates.mpr hother)⟩
  obtain ⟨-, hsome, heach⟩ := suggests_rarest twoRarest
  have hfirst := hrarest 1 (by decide) (by decide)
  exact ⟨heach 1 hfirst, heach 4 (hrarest 4 (by decide) (by decide)),
    hsome ⟨1, hfirst.candidate⟩ (List Bool) scriptedCoin⟩

end Selection

end TorrentCore
