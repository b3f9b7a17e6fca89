import Mathlib.Data.List.Nodup
import TorrentCore.Proofs.Bitfield
import TorrentCore.Selection

/-!
# What may be picked

The candidates are looked for byte by byte, with masks. What comes out is the plain filter: the
pieces that the peer has and we do not, as far as they are neither reserved nor ruled out. Views may
be shorter or longer than the pieces need, and bits that belong to no piece do not count. Whatever
the coins say, the piece that is suggested is a candidate, and no other one is rarer.
-/

namespace TorrentCore

namespace ByteView

def has (v : ByteView) (index : Nat) : Bool := bitSet (v.get (index / 8)) index

theorem lt_size_of_has {v : ByteView} {index : Nat} (h : v.has index = true) :
    index / 8 < v.size := by
  refine Decidable.byContradiction fun hsize => ?_
  have hzero : v.get (index / 8) = 0 := by
    rw [get, Array.getD_eq_getD_getElem?, Array.getElem?_eq_none (Nat.le_of_not_lt hsize),
      Option.getD_none]
  rw [has, hzero, bitSet_zero] at h
  cases h

end ByteView

theorem Bitfield.has_view (f : Bitfield) (index : Nat) :
    f.view.has index = bitSet (f.loadByte (index / 8)) index := by
  simp only [ByteView.has, Bitfield.view, ByteView.ofBytes, ByteView.get, Bitfield.loadByte,
    Array.getD_eq_getD_getElem?, List.getElem?_toArray, List.getD_eq_getElem?_getD]

theorem Bitfield.contains_eq_has {f : Bitfield} {index : Nat} (h : index < f.pieceCount) :
    f.contains index = f.view.has index := by
  rw [contains_eq, decide_eq_true h, Bool.true_and, has_view]

namespace Selection

/-- What makes a piece a candidate. -/
structure Candidate (s : Selection) (index : Nat) : Prop where
  lt : index < s.pieceCount
  peer : s.peer.has index = true
  missing : s.ours.has index = false
  free : ∀ reserved, s.reserved = some reserved → reserved.has index = false
  allowed : ∀ allowed, s.allowed = some allowed → allowed.has index = true

variable {s : Selection} {index : Nat}

/-! ### The candidates -/

theorem bitSet_byteMask (h : index / 8 < bitfieldLength s.pieceCount) :
    bitSet (s.byteMask (index / 8)) index = decide (index < s.pieceCount) := by
  unfold byteMask
  rw [bitfieldLength] at h ⊢
  split
  · rw [← bitSet_mod, bitSet_lastByteMask s.pieceCount (Nat.mod_lt index (by decide))]
    exact decide_eq_decide.mpr (by omega)
  · rw [bitSet_full, decide_eq_true (by omega)]

theorem bitSet_candidateByte (h : index / 8 < bitfieldLength s.pieceCount) :
    bitSet (s.candidateByte (index / 8)) index = true ↔ s.Candidate index := by
  have hwanted : bitSet (s.peer.get (index / 8) &&& ~~~s.ours.get (index / 8)
      &&& s.byteMask (index / 8)) index
        = (s.peer.has index && !s.ours.has index && decide (index < s.pieceCount)) := by
    rw [bitSet_and, bitSet_and, bitSet_not, bitSet_byteMask h]
    rfl
  have hmasks : s.Candidate index ↔ (s.peer.has index && !s.ours.has index
      && decide (index < s.pieceCount)) = true
      ∧ (∀ reserved, s.reserved = some reserved → reserved.has index = false)
      ∧ ∀ allowed, s.allowed = some allowed → allowed.has index = true := by
    simp only [Bool.and_eq_true, Bool.not_eq_true', decide_eq_true_eq]
    exact ⟨fun c => ⟨⟨⟨c.peer, c.missing⟩, c.lt⟩, c.free, c.allowed⟩,
      fun ⟨⟨⟨hpeer, hmissing⟩, hlt⟩, hfree, hallowed⟩ => ⟨hlt, hpeer, hmissing, hfree, hallowed⟩⟩
  rw [hmasks, ← hwanted]
  unfold candidateByte
  cases s.reserved <;> cases s.allowed <;>
    simp only [bitSet_and, bitSet_not, Bool.and_eq_true, Bool.not_eq_true', ByteView.has,
      Option.some.injEq, forall_eq', reduceCtorEq, false_implies, implies_true, and_true, true_and,
      and_assoc]

theorem mem_candidatesIn {position : Nat} : index ∈ s.candidatesIn position
    ↔ index / 8 = position ∧ bitSet (s.candidateByte position) index = true := by
  unfold candidatesIn
  simp only
  split
  · next hzero =>
    rw [hzero, bitSet_zero]
    exact ⟨fun h => absurd h List.not_mem_nil, fun h => (by cases h.2)⟩
  · simp only [List.mem_map, List.mem_filter, List.mem_range]
    constructor
    · rintro ⟨bit, ⟨hbit, hset⟩, rfl⟩
      refine ⟨by omega, ?_⟩
      rw [← bitSet_mod, show (position * 8 + bit) % 8 = bit by omega]
      exact hset
    · rintro ⟨rfl, hset⟩
      exact ⟨index % 8, ⟨Nat.mod_lt index (by decide), (bitSet_mod _ index).trans hset⟩, by omega⟩

theorem mem_candidates : index ∈ s.candidates ↔ s.Candidate index := by
  simp only [candidates, List.mem_flatMap, List.mem_range, mem_candidatesIn, Nat.lt_min]
  constructor
  · rintro ⟨position, ⟨hlength, _⟩, rfl, hset⟩
    exact (bitSet_candidateByte hlength).mp hset
  · intro h
    have hlength := div_lt_bitfieldLength h.lt
    exact ⟨index / 8, ⟨hlength, ByteView.lt_size_of_has h.peer⟩, rfl,
      (bitSet_candidateByte hlength).mpr h⟩

theorem nodup_candidates : s.candidates.Nodup := by
  refine List.nodup_flatMap.mpr ⟨fun position _ => ?_, List.nodup_range.imp fun hne => ?_⟩
  · unfold candidatesIn
    simp only
    split
    · exact List.nodup_nil
    · exact (List.nodup_range.filter _).map fun i i' (h : position * 8 + i = position * 8 + i') =>
        Nat.add_left_cancel h
  · intro index hindex hindex'
    exact hne ((mem_candidatesIn.mp hindex).1.symm.trans (mem_candidatesIn.mp hindex').1)

theorem haveAll_iff : s.haveAll = true ↔ ∀ index < s.pieceCount, s.ours.has index = true := by
  simp only [haveAll, Bool.and_eq_true, decide_eq_true_eq, List.all_eq_true, List.mem_range,
    beq_iff_eq]
  constructor
  · rintro ⟨-, hall⟩ index hindex
    have hposition := div_lt_bitfieldLength hindex
    have hbit := congrArg (fun b => bitSet b index) (hall (index / 8) hposition)
    simp only [bitSet_and, bitSet_byteMask hposition, decide_eq_true hindex, Bool.and_true] at hbit
    exact hbit
  · intro hall
    constructor
    · unfold bitfieldLength
      rcases Nat.eq_zero_or_pos s.pieceCount with hnone | hsome
      · omega
      · have hlast := ByteView.lt_size_of_has (hall (s.pieceCount - 1) (by omega))
        omega
    · intro position hposition
      apply byte_ext
      intro i hi
      have hmask : bitSet (s.byteMask position) i = decide (8 * position + i < s.pieceCount) := by
        have hbit : (8 * position + i) / 8 < bitfieldLength s.pieceCount → _ := bitSet_byteMask
        rwa [show (8 * position + i) / 8 = position by omega, ← bitSet_mod,
          show (8 * position + i) % 8 = i by omega, imp_iff_right hposition] at hbit
      rw [bitSet_and, hmask]
      by_cases hindex : 8 * position + i < s.pieceCount
      · have hbit := hall (8 * position + i) hindex
        rw [ByteView.has, show (8 * position + i) / 8 = position by omega, ← bitSet_mod,
          show (8 * position + i) % 8 = i by omega] at hbit
        rw [hbit, Bool.true_and]
      · rw [decide_eq_false hindex, Bool.and_false]

/-! ### The choice

The choice is a recursion over the candidates that are still to be met, whatever the coins are. -/

section Choice

variable {m : Type → Type} [Monad m] {coin : Nat → m Bool} {held : Held} {indices : List Nat}

/-- The choice when these candidates are still to be met. -/
def suggestAmong (coin : Nat → m Bool) (s : Selection) (held : Option Held) (indices : List Nat) :
    m Suggestion := do
  let held ← indices.foldlM (s.meet coin) held
  match held with
  | some h => pure (.piece h.index)
  | none => pure (if s.haveAll then .complete else .noneAvailable)

theorem suggest_eq_suggestAmong : s.suggest coin = s.suggestAmong coin none s.candidates := rfl

variable [LawfulMonad m]

theorem suggestAmong_cons (held : Option Held) (index : Nat) (indices : List Nat) :
    s.suggestAmong coin held (index :: indices)
      = s.meet coin held index >>= fun held => s.suggestAmong coin held indices := by
  rw [suggestAmong, List.foldlM_cons, bind_assoc]
  rfl

theorem suggestAmong_none_nil : s.suggestAmong coin none []
    = pure (if s.haveAll then .complete else .noneAvailable) := by
  rw [suggestAmong, List.foldlM_nil, pure_bind]

theorem suggestAmong_nil : s.suggestAmong coin (some held) [] = pure (.piece held.index) := by
  rw [suggestAmong, List.foldlM_nil, pure_bind]

theorem suggestAmong_first (index : Nat) (indices : List Nat) :
    s.suggestAmong coin none (index :: indices)
      = s.suggestAmong coin (some ⟨index, s.rarity index, 1⟩) indices := by
  rw [suggestAmong_cons, meet, pure_bind]

theorem suggestAmong_of_commoner {index : Nat} (h : held.rarity < s.rarity index) :
    s.suggestAmong coin (some held) (index :: indices)
      = s.suggestAmong coin (some held) indices := by
  rw [suggestAmong_cons, meet, if_pos h, pure_bind]

theorem suggestAmong_of_rarer {index : Nat} (h : s.rarity index < held.rarity) :
    s.suggestAmong coin (some held) (index :: indices)
      = s.suggestAmong coin (some ⟨index, s.rarity index, 1⟩) indices := by
  rw [suggestAmong_cons, meet, if_neg (UInt32.lt_asymm h), if_neg (UInt32.ne_of_lt h), pure_bind]

theorem suggestAmong_of_tie {index : Nat} (h : s.rarity index = held.rarity) :
    s.suggestAmong coin (some held) (index :: indices)
      = coin (held.ties + 1) >>= fun replaced => s.suggestAmong coin (some { held with
          index := if replaced then index else held.index, ties := held.ties + 1 }) indices := by
  rw [suggestAmong_cons, meet, if_neg (h ▸ UInt32.lt_irrefl _), if_pos h, bind_assoc]
  simp only [pure_bind]

end Choice

/-- Whatever the coins say, a rarest candidate is suggested. -/
theorem suggestAmong_rarest {σ : Type} (coin : Nat → StateM σ Bool) (outcomes : σ) (held : Held)
    (hheld : held.rarity = s.rarity held.index) (indices : List Nat) : ∃ index,
      ((s.suggestAmong coin (some held) indices : StateM σ Suggestion) outcomes).1 = .piece index
        ∧ (index = held.index ∨ index ∈ indices) ∧ s.rarity index ≤ held.rarity
        ∧ ∀ other ∈ indices, s.rarity index ≤ s.rarity other := by
  induction indices generalizing held outcomes with
  | nil =>
      rw [suggestAmong_nil]
      exact ⟨held.index, rfl, Or.inl rfl, UInt32.le_of_eq hheld.symm, fun _ h => nomatch h⟩
  | cons first indices ih =>
      by_cases hcommoner : held.rarity < s.rarity first
      · rw [suggestAmong_of_commoner hcommoner]
        obtain ⟨index, hresult, hindex, hle, hall⟩ := ih outcomes held hheld
        refine ⟨index, hresult, hindex.imp_right (List.mem_cons_of_mem _), hle, ?_⟩
        exact List.forall_mem_cons.mpr
          ⟨UInt32.le_trans hle (UInt32.le_of_lt hcommoner), hall⟩
      by_cases htie : s.rarity first = held.rarity
      · rw [suggestAmong_of_tie htie]
        -- Whichever of the two is held now, its rarity is the same.
        have hnext (replaced : Bool) : held.rarity
            = s.rarity (if replaced then first else held.index) := by
          cases replaced
          · exact hheld
          · exact htie.symm
        obtain ⟨index, hresult, hindex, hle, hall⟩ :=
          ih (coin (held.ties + 1) outcomes).2 { held with
            index := if (coin (held.ties + 1) outcomes).1 then first else held.index
            ties := held.ties + 1 } (hnext _)
        refine ⟨index, hresult, ?_, hle, List.forall_mem_cons.mpr ⟨htie ▸ hle, hall⟩⟩
        rcases hindex with hsame | hmem
        · rw [hsame]
          simp only
          split
          · exact Or.inr List.mem_cons_self
          · exact Or.inl rfl
        · exact Or.inr (List.mem_cons_of_mem _ hmem)
      · have hrarer : s.rarity first < held.rarity :=
          UInt32.lt_of_le_of_ne (UInt32.not_lt.mp hcommoner) htie
        rw [suggestAmong_of_rarer hrarer]
        obtain ⟨index, hresult, hindex, hle, hall⟩ :=
          ih outcomes ⟨first, s.rarity first, 1⟩ rfl
        refine ⟨index, hresult, Or.inr ?_, UInt32.le_trans hle (UInt32.le_of_lt hrarer),
          List.forall_mem_cons.mpr ⟨hle, hall⟩⟩
        rcases hindex with hsame | hmem
        · exact hsame ▸ List.mem_cons_self
        · exact List.mem_cons_of_mem _ hmem

/-- A candidate that no other one is rarer than. -/
structure Rarest (s : Selection) (index : Nat) : Prop where
  candidate : s.Candidate index
  le : ∀ other, s.Candidate other → s.rarity index ≤ s.rarity other

section Outcome

variable {σ : Type} {coin : Nat → StateM σ Bool} {outcomes : σ}

theorem suggest_of_none (h : ¬ ∃ index, s.Candidate index) :
    ((s.suggest coin : StateM σ Suggestion) outcomes).1
      = if s.haveAll then .complete else .noneAvailable := by
  have hnone : s.candidates = [] :=
    List.eq_nil_iff_forall_not_mem.mpr fun index hmem => h ⟨index, mem_candidates.mp hmem⟩
  rw [suggest_eq_suggestAmong, hnone, suggestAmong_none_nil]
  rfl

theorem exists_rarest_suggest (coin : Nat → StateM σ Bool) (outcomes : σ)
    (h : ∃ index, s.Candidate index) : ∃ index, s.Rarest index
    ∧ ((s.suggest coin : StateM σ Suggestion) outcomes).1 = .piece index := by
  obtain ⟨some, hsome⟩ := h
  cases hcandidates : s.candidates with
  | nil => exact absurd (hcandidates ▸ mem_candidates.mpr hsome) List.not_mem_nil
  | cons first indices =>
      obtain ⟨index, hresult, hindex, hle, hall⟩ :=
        suggestAmong_rarest coin outcomes ⟨first, s.rarity first, 1⟩ rfl indices
      rw [suggest_eq_suggestAmong, hcandidates, suggestAmong_first]
      refine ⟨index, ⟨mem_candidates.mp ?_, fun other hother => ?_⟩, hresult⟩
      · rw [hcandidates, List.mem_cons]
        exact hindex
      · rw [← mem_candidates, hcandidates] at hother
        rcases List.mem_cons.mp hother with rfl | hmem
        · exact hle
        · exact hall other hmem

theorem candidate_of_suggest
    (h : ((s.suggest coin : StateM σ Suggestion) outcomes).1 = .piece index) :
    s.Candidate index := by
  by_cases hsome : ∃ index, s.Candidate index
  · obtain ⟨index', hrarest, hresult⟩ := exists_rarest_suggest coin outcomes hsome
    cases h.symm.trans hresult
    exact hrarest.candidate
  · rw [suggest_of_none hsome] at h
    split at h <;> cases h

end Outcome

end Selection

end TorrentCore
