import Mathlib.Algebra.GroupWithZero.Nat
import TorrentCore.Table

/-!
# Tables by key

What a table holds under a key after each operation, and the list of its keys. No key occurs twice
in a table that was built by putting in keys that were not there, and then counting entries is
counting keys.
-/

namespace TorrentCore

namespace Table

variable {κ α : Type} [DecidableEq κ]

theorem find?_map_modify (l : List (κ × α)) (k k' : κ) (f : α → α) :
    find? k' (l.map fun e => if e.1 = k then (e.1, f e.2) else e)
      = if k' = k then (find? k l).map f else find? k' l := by
  induction l with
  | nil => simp only [List.map_nil, find?, Option.map_none, ite_self]
  | cons e l ih =>
      rw [List.map_cons, find?, find?, find?, ih]
      by_cases hk : e.1 = k
      · subst hk
        by_cases hk' : e.1 = k'
        · subst hk'
          simp only [if_true, Option.map_some]
        · have hne : ¬ k' = e.1 := fun he => hk' he.symm
          simp only [if_true, if_neg hk', if_neg hne]
      · by_cases hk' : e.1 = k'
        · subst hk'
          simp only [if_neg hk, if_true]
        · simp only [if_neg hk, if_neg hk']

theorem get?_modify (t : Table κ α) (k k' : κ) (f : α → α) :
    (t.modify k f).get? k' = if k' = k then (t.get? k).map f else t.get? k' :=
  find?_map_modify t.entries k k' f

theorem get?_insert_self {t : Table κ α} {k : κ} {v : α} : (t.insert k v).get? k = some v :=
  (get?_insert t k k v).trans (if_pos rfl)

theorem get?_insert_of_ne {t : Table κ α} {k k' : κ} {v : α} (h : k' ≠ k) :
    (t.insert k v).get? k' = t.get? k' := (get?_insert t k k' v).trans (if_neg h)

theorem get?_erase_self {t : Table κ α} {k : κ} : (t.erase k).get? k = none :=
  (get?_erase t k k).trans (if_pos rfl)

theorem get?_erase_of_ne {t : Table κ α} {k k' : κ} (h : k' ≠ k) :
    (t.erase k).get? k' = t.get? k' := (get?_erase t k k').trans (if_neg h)

theorem modify_modify (t : Table κ α) (k : κ) (f g : α → α) :
    (t.modify k f).modify k g = t.modify k (g ∘ f) := by
  simp only [modify, List.map_map]
  congr 2
  funext e
  simp only [Function.comp_apply]
  split <;> rfl

theorem find?_map_values (l : List (κ × α)) (k : κ) (f : α → α) :
    find? k (l.map fun e => (e.1, f e.2)) = (find? k l).map f := by
  induction l with
  | nil => rfl
  | cons e l ih =>
      rw [List.map_cons, find?, find?, ih]
      split <;> rfl

theorem get?_eq_none_iff {t : Table κ α} {k : κ} : t.get? k = none ↔ k ∉ t.keys := by
  unfold get? keys
  induction t.entries with
  | nil => simp only [find?, List.map_nil, List.not_mem_nil, not_false_eq_true]
  | cons e l ih =>
      rw [find?, List.map_cons, List.mem_cons, not_or]
      by_cases he : e.1 = k
      · rw [if_pos he]
        exact ⟨fun h => (by cases h), fun h => absurd he.symm h.1⟩
      · rw [if_neg he, ih]
        exact ⟨fun h => ⟨fun h' => he h'.symm, h⟩, fun h => h.2⟩

@[simp] theorem keys_modify (t : Table κ α) (k : κ) (f : α → α) : (t.modify k f).keys = t.keys := by
  rw [keys, modify, List.map_map]
  apply List.map_congr_left
  intro e _
  simp only [Function.comp_apply]
  split <;> rfl

theorem map_values_modify {β : Type} (t : Table κ α) (k : κ) {f : α → α} {g : α → β}
    (h : ∀ v, g (f v) = g v) : (t.modify k f).values.map g = t.values.map g := by
  simp only [modify, values, List.map_map]
  apply List.map_congr_left
  intro e _
  simp only [Function.comp_apply]
  split
  · exact h e.2
  · rfl

theorem keys_insert {t : Table κ α} {k : κ} (h : t.get? k = none) (v : α) :
    (t.insert k v).keys = t.keys ++ [k] := by
  have hnew : ¬ t.contains k = true := by
    rw [contains, h]
    exact Bool.false_ne_true
  rw [insert, if_neg hnew, keys, List.map_append]
  rfl

theorem mem_keys_erase {t : Table κ α} {k k' : κ} :
    k' ∈ (t.erase k).keys ↔ k' ∈ t.keys ∧ k' ≠ k := by
  simp only [keys, erase, List.mem_map, List.mem_filter]
  constructor
  · rintro ⟨e, ⟨he, hne⟩, rfl⟩
    exact ⟨⟨e, he, rfl⟩, fun heq => by simp [heq] at hne⟩
  · rintro ⟨⟨e, he, rfl⟩, hne⟩
    exact ⟨e, ⟨he, by simp [hne]⟩, rfl⟩

theorem nodup_keys_erase {t : Table κ α} (h : t.keys.Nodup) (k : κ) : (t.erase k).keys.Nodup :=
  h.sublist (List.filter_sublist.map Prod.fst)

theorem mem_of_get? {t : Table κ α} {k : κ} {v : α} (h : t.get? k = some v) :
    (k, v) ∈ t.entries := by
  unfold get? at h
  induction hentries : t.entries generalizing t with
  | nil =>
      rw [hentries] at h
      cases h
  | cons e l ih =>
      rw [hentries, find?] at h
      split at h
      · next heq =>
        cases h
        exact heq ▸ List.mem_cons_self
      · exact List.mem_cons_of_mem _ (ih (t := ⟨l⟩) h rfl)

theorem mem_insert {t : Table κ α} {k : κ} {v : α} {e : κ × α}
    (h : e ∈ (t.insert k v).entries) : e = (k, v) ∨ e ∈ t.entries := by
  rw [insert] at h
  split at h
  · obtain ⟨e', he', rfl⟩ := List.mem_map.mp h
    split
    · exact Or.inl rfl
    · exact Or.inr he'
  · rcases List.mem_append.mp h with hold | hnew
    · exact Or.inr hold
    · exact Or.inl (List.mem_singleton.mp hnew)

theorem keys_insert_of_mem {t : Table κ α} {k : κ} (h : t.get? k ≠ none) (v : α) :
    (t.insert k v).keys = t.keys := by
  have hold : t.contains k = true := Option.isSome_iff_ne_none.mpr h
  rw [insert, if_pos hold, keys, keys, List.map_map]
  apply List.map_congr_left
  intro e _
  rw [Function.comp_apply]
  split
  · next heq => exact heq.symm
  · rfl

theorem nodup_keys_insert {t : Table κ α} (h : t.keys.Nodup) (k : κ) (v : α) :
    (t.insert k v).keys.Nodup := by
  by_cases hnew : t.get? k = none
  · rw [keys_insert hnew]
    refine List.nodup_append.mpr ⟨h, List.pairwise_singleton _ _, fun key hkey key' hkey' heq => ?_⟩
    exact get?_eq_none_iff.mp hnew (by rwa [← List.mem_singleton.mp hkey', ← heq])
  · rwa [keys_insert_of_mem hnew]

theorem get?_of_mem {t : Table κ α} (h : t.keys.Nodup) {k : κ} {v : α}
    (hmem : (k, v) ∈ t.entries) : t.get? k = some v := by
  unfold get?
  unfold keys at h
  induction hentries : t.entries generalizing t with
  | nil =>
      rw [hentries] at hmem
      cases hmem
  | cons e l ih =>
      rw [hentries, List.map_cons, List.nodup_cons] at h
      rw [hentries, List.mem_cons] at hmem
      rw [find?]
      rcases hmem with rfl | hmem
      · rw [if_pos rfl]
      · have hne : ¬ e.1 = k := fun heq => h.1 (heq ▸ List.mem_map_of_mem hmem)
        rw [if_neg hne]
        exact ih (t := ⟨l⟩) h.2 hmem rfl

theorem mem_keys_filter {t : Table κ α} (h : t.keys.Nodup) {keep : κ → α → Bool} {k : κ} :
    k ∈ (t.filter keep).keys ↔ ∃ v, t.get? k = some v ∧ keep k v = true := by
  rw [keys, List.mem_map]
  constructor
  · rintro ⟨⟨k', v⟩, hmem, rfl⟩
    obtain ⟨hmem, hkeep⟩ := List.mem_filter.mp hmem
    exact ⟨v, get?_of_mem h hmem, hkeep⟩
  · rintro ⟨v, hget, hkeep⟩
    exact ⟨(k, v), List.mem_filter.mpr ⟨mem_of_get? hget, hkeep⟩, rfl⟩

theorem get?_filter_of_some {t : Table κ α} {keep : κ → α → Bool} {k : κ} {v : α}
    (h : t.get? k = some v) (hkeep : keep k v = true) : (t.filter keep).get? k = some v := by
  obtain ⟨entries⟩ := t
  unfold get? filter at *
  induction entries with
  | nil => cases h
  | cons e l ih =>
      rw [find?] at h
      rw [List.filter_cons]
      by_cases heq : e.1 = k
      · rw [if_pos heq] at h
        cases h
        rw [heq, hkeep, if_pos rfl, find?, if_pos heq]
      · rw [if_neg heq] at h
        split
        · rw [find?, if_neg heq, ih h]
        · exact ih h

theorem get?_filter_of_none {t : Table κ α} {k : κ} (h : t.get? k = none)
    (keep : κ → α → Bool) : (t.filter keep).get? k = none := by
  rw [get?_eq_none_iff] at h ⊢
  exact fun hmem => h ((List.filter_sublist.map Prod.fst).subset hmem)

theorem countP_values {t : Table κ α} (h : t.keys.Nodup) (p : α → Bool) :
    t.values.countP p = t.keys.countP fun k => (t.get? k).any p := by
  obtain ⟨entries⟩ := t
  show (entries.map Prod.snd).countP p
    = (entries.map Prod.fst).countP fun k => (find? k entries).any p
  induction entries with
  | nil => rfl
  | cons e l ih =>
      rw [keys, List.map_cons, List.nodup_cons] at h
      have hrest : (l.map Prod.fst).countP (fun k => (find? k (e :: l)).any p)
          = (l.map Prod.fst).countP fun k => (find? k l).any p := by
        apply List.countP_congr
        intro k hk
        have hne : ¬ e.1 = k := fun he => h.1 (he ▸ hk)
        rw [find?, if_neg hne]
      rw [List.map_cons, List.map_cons, List.countP_cons, List.countP_cons, hrest, ih h.2, find?,
        if_pos rfl, Option.any_some]

/-! ### Sums -/

def weightAt (t : Table κ α) (weight : α → Nat) (k : κ) : Nat := ((t.get? k).map weight).getD 0

theorem sum_values_erase {t : Table κ α} (h : t.keys.Nodup) (weight : α → Nat) (k : κ) :
    ((t.erase k).values.map weight).sum + t.weightAt weight k = (t.values.map weight).sum := by
  obtain ⟨entries⟩ := t
  show (((entries.filter fun e => !decide (e.1 = k)).map Prod.snd).map weight).sum
    + ((find? k entries).map weight).getD 0 = ((entries.map Prod.snd).map weight).sum
  induction entries with
  | nil => rfl
  | cons e l ih =>
      rw [keys, List.map_cons, List.nodup_cons] at h
      have hsum := ih h.2
      rw [List.filter_cons, find?]
      by_cases hk : e.1 = k
      · have hnone : find? k l = none := (get?_eq_none_iff (t := ⟨l⟩)).mpr (hk ▸ h.1)
        rw [hnone] at hsum
        simp only [decide_eq_true hk, Bool.not_true, Bool.false_eq_true, if_false, if_pos hk,
          List.map_cons, List.sum_cons, Option.map_some, Option.getD_some]
        rw [← hsum]
        exact Nat.add_comm _ _
      · simp only [decide_eq_false hk, Bool.not_false, if_true, if_neg hk, List.map_cons,
          List.sum_cons]
        rw [Nat.add_assoc, hsum]

theorem filter_map_replace (l : List (κ × α)) (k : κ) (v : α) :
    (l.map fun e => if e.1 = k then (k, v) else e).filter (fun e => !decide (e.1 = k))
      = l.filter fun e => !decide (e.1 = k) := by
  induction l with
  | nil => rfl
  | cons e l ih => by_cases h : e.1 = k <;> simp [h, ih]

theorem erase_insert (t : Table κ α) (k : κ) (v : α) : (t.insert k v).erase k = t.erase k := by
  unfold insert erase
  split
  · exact congrArg Table.mk (filter_map_replace t.entries k v)
  · have hgone : [(k, v)].filter (fun e => !decide (e.1 = k)) = [] := by simp
    rw [List.filter_append, hgone, List.append_nil]

theorem sum_values_insert {t : Table κ α} (h : t.keys.Nodup) (weight : α → Nat) (k : κ) (v : α) :
    ((t.insert k v).values.map weight).sum + t.weightAt weight k
      = (t.values.map weight).sum + weight v := by
  have hafter := sum_values_erase (nodup_keys_insert h k v) weight k
  rw [erase_insert, weightAt, get?_insert, if_pos rfl, Option.map_some, Option.getD_some] at hafter
  have hbefore := sum_values_erase h weight k
  omega

/-! ### Sizes -/

omit [DecidableEq κ] in
theorem length_keys (t : Table κ α) : t.keys.length = t.size := List.length_map _

theorem size_insert (t : Table κ α) (k : κ) (v : α) :
    (t.insert k v).size + (t.get? k).toList.length = t.size + 1 := by
  rw [← length_keys, ← length_keys]
  cases hget : t.get? k with
  | none =>
      rw [keys_insert hget, List.length_append]
      rfl
  | some w =>
      rw [keys_insert_of_mem (hget ▸ Option.some_ne_none w)]
      rfl

theorem size_erase {t : Table κ α} (h : t.keys.Nodup) (k : κ) :
    (t.erase k).size + (t.get? k).toList.length = t.size := by
  have hones (l : List α) : (l.map fun _ => 1).sum = l.length := by
    rw [List.map_const', List.sum_replicate_nat, Nat.mul_one]
  have hsum := sum_values_erase h (fun _ => 1) k
  rw [hones, hones, values, List.length_map, values, List.length_map] at hsum
  rw [size, size, ← hsum, weightAt]
  cases t.get? k <;> rfl

end Table

end TorrentCore
