import TorrentCore.Proofs.Swarm.Run

/-!
# Catalogs

The catalog of a swarm tells which sessions are listed and which are being added, and has a card for
every session, with the torrent it is for and whether it is shut down. Most of what a swarm does
leaves the catalog as it is; `Turn` has a case for each event that does not. What is listed or being
added is shut down just if the swarm is stopped: this is kept by every turn.
-/

namespace TorrentCore

structure Card where
  infoHash : Identifier
  cancelled : Bool

def Card.shut (c : Card) : Card := { c with cancelled := true }

@[ext]
structure Catalog where
  torrents : Table Identifier Nat
  adding : Table Nat Bool
  stopped : Bool
  nextNumber : Nat
  card : Nat → Option Card

namespace Catalog

def Idle (c c' : Catalog) : Prop :=
  ∃ next, c.nextNumber ≤ next ∧ c' = { c with nextNumber := next }

theorem Idle.refl (c : Catalog) : c.Idle c := ⟨c.nextNumber, Nat.le_refl _, rfl⟩

theorem Idle.trans {c c' c'' : Catalog} (h : c.Idle c') (h' : c'.Idle c'') : c.Idle c'' := by
  obtain ⟨next, hle, rfl⟩ := h
  obtain ⟨next', hle', rfl⟩ := h'
  exact ⟨next', Nat.le_trans hle hle', rfl⟩

def put (c : Catalog) (number : Nat) (card : Card) : Catalog :=
  { c with card := Function.update c.card number (some card) }

theorem put_eq_self {c : Catalog} {number : Nat} {card : Card} (h : c.card number = some card) :
    c.put number card = c := by
  rw [put, ← h, Function.update_eq_self]

def shut (c : Catalog) (numbers : List Nat) : Catalog :=
  { c with card := fun n => if n ∈ numbers then (c.card n).map Card.shut else c.card n }

theorem shut_singleton {c : Catalog} {number : Nat} {card : Card} (h : c.card number = some card) :
    c.shut [number] = c.put number card.shut := by
  simp only [shut, put, mk.injEq, true_and, List.mem_singleton]
  funext n
  rw [Function.update_apply]
  split
  · next heq => rw [heq, h, Option.map_some]
  · rfl

theorem shut_shut (c : Catalog) (numbers numbers' : List Nat) :
    (c.shut numbers).shut numbers' = c.shut (numbers ++ numbers') := by
  simp only [shut, mk.injEq, true_and, List.mem_append]
  funext n
  by_cases hfirst : n ∈ numbers <;> by_cases hthen : n ∈ numbers'
  · simp only [hfirst, hthen, if_true, true_or, Option.map_map]
    rfl
  all_goals simp only [hfirst, hthen, if_true, if_false, or_true, or_false]

def begin (c : Catalog) (infoHash : Identifier) (check : Bool) : Catalog :=
  { c.put c.nextNumber ⟨infoHash, c.stopped⟩ with
    adding := c.adding.insert c.nextNumber check
    nextNumber := c.nextNumber + 1 }

def list (c : Catalog) (number : Nat) (infoHash : Identifier) : Catalog :=
  { c with
    adding := c.adding.erase number
    torrents := c.torrents.insert infoHash number }

def reject (c : Catalog) (number : Nat) : Catalog :=
  { c.shut [number] with adding := c.adding.erase number }

def remove (c : Catalog) (infoHash : Identifier) (number : Nat) : Catalog :=
  { c.shut [number] with torrents := c.torrents.erase infoHash }

def stop (c : Catalog) : Catalog :=
  { c.shut (c.torrents.values ++ c.adding.keys) with torrents := .empty, stopped := true }

inductive Turn (c : Catalog) : Swarm.Event → Catalog → Prop
  | idle (event : Swarm.Event) (c' : Catalog) (hidle : c.Idle c') : Turn c event c'
  | begun (t : TorrentSource) (hnew : c.torrents.get? t.infoHash = none) :
      Turn c (.beginAdd t) (c.begin t.infoHash (t.initial == .check))
  | listed (number : Nat) (check : Bool) (card : Card) (hadding : c.adding.get? number = some check)
      (hcard : c.card number = some card) (hnew : c.torrents.get? card.infoHash = none) :
      Turn c (.finishAdd number) (c.list number card.infoHash)
  | rejected (number : Nat) (check : Bool) (hadding : c.adding.get? number = some check) :
      Turn c (.finishAdd number) (c.reject number)
  | removed (infoHash : Identifier) (number : Nat)
      (hlisted : c.torrents.get? infoHash = some number) :
      Turn c (.removeTorrent infoHash) (c.remove infoHash number)
  | stopped : Turn c .stop c.stop

/-! ### The invariant -/

structure Orderly (c : Catalog) : Prop where
  nodup : c.torrents.keys.Nodup
  listed : ∀ infoHash number, c.torrents.get? infoHash = some number →
    c.card number = some ⟨infoHash, c.stopped⟩
  pending : ∀ number check, c.adding.get? number = some check →
    ∃ infoHash, c.card number = some ⟨infoHash, c.stopped⟩
  apart : ∀ infoHash number, c.torrents.get? infoHash = some number → c.adding.get? number = none
  numbered : ∀ number, c.nextNumber ≤ number → c.card number = none

section Orderly

variable {c c' : Catalog} {number : Nat}

theorem Orderly.idle (h : c.Orderly) (hidle : c.Idle c') : c'.Orderly := by
  obtain ⟨next, hle, rfl⟩ := hidle
  exact ⟨h.nodup, h.listed, h.pending, h.apart, fun n hn => h.numbered n (Nat.le_trans hle hn)⟩

theorem Orderly.listed_inj (h : c.Orderly) {infoHash infoHash' : Identifier}
    (hlisted : c.torrents.get? infoHash = some number)
    (hlisted' : c.torrents.get? infoHash' = some number) : infoHash = infoHash' := by
  have hcard := h.listed infoHash number hlisted
  rw [h.listed infoHash' number hlisted'] at hcard
  cases hcard
  rfl

theorem Orderly.begin (h : c.Orderly) (infoHash : Identifier) (check : Bool) :
    (c.begin infoHash check).Orderly := by
  have hnone := h.numbered c.nextNumber (Nat.le_refl _)
  have hold : ∀ {n card}, c.card n = some card →
      n ≠ c.nextNumber ∧ (c.begin infoHash check).card n = some card := by
    intro n card hcard
    have hne : n ≠ c.nextNumber := by
      rintro rfl
      cases hnone.symm.trans hcard
    exact ⟨hne, (Function.update_of_ne hne _ _).trans hcard⟩
  refine ⟨h.nodup, fun ih n hget => (hold (h.listed ih n hget)).2, fun n check' hget => ?_,
    fun ih n hget => ?_, fun n hn => ?_⟩
  · rw [Catalog.begin, Table.get?_insert] at hget
    split at hget
    · next heq => exact ⟨infoHash, heq ▸ Function.update_self _ _ _⟩
    · obtain ⟨ih, hcard⟩ := h.pending n check' hget
      exact ⟨ih, (hold hcard).2⟩
  · rw [Catalog.begin, Table.get?_insert, if_neg (hold (h.listed ih n hget)).1]
    exact h.apart ih n hget
  · have hne : n ≠ c.nextNumber := Nat.ne_of_gt hn
    exact (Function.update_of_ne hne _ _).trans (h.numbered n (Nat.le_of_lt hn))

theorem Orderly.unpend (h : c.Orderly) (number : Nat) :
    Orderly { c with adding := c.adding.erase number } := by
  refine ⟨h.nodup, h.listed, fun n check hget => ?_, fun infoHash n hget => ?_, h.numbered⟩
  · rw [Table.get?_erase] at hget
    split at hget
    · cases hget
    · exact h.pending n check hget
  · rw [Table.get?_erase]
    split
    · rfl
    · exact h.apart infoHash n hget

theorem Orderly.unlist (h : c.Orderly) (infoHash : Identifier) :
    Orderly { c with torrents := c.torrents.erase infoHash } := by
  have hbefore : ∀ {ih n}, (c.torrents.erase infoHash).get? ih = some n →
      c.torrents.get? ih = some n := by
    intro ih n hget
    rw [Table.get?_erase] at hget
    split at hget
    · cases hget
    · exact hget
  exact ⟨Table.nodup_keys_erase h.nodup infoHash, fun ih n hget => h.listed ih n (hbefore hget),
    h.pending, fun ih n hget => h.apart ih n (hbefore hget), h.numbered⟩

theorem Orderly.shut (h : c.Orderly)
    (hunlisted : ∀ infoHash, c.torrents.get? infoHash ≠ some number)
    (hsettled : c.adding.get? number = none) : (c.shut [number]).Orderly := by
  have hkeep : ∀ {n : Nat}, n ≠ number → (c.shut [number]).card n = c.card n := fun hne =>
    if_neg fun hmem => hne (List.mem_singleton.mp hmem)
  refine ⟨h.nodup, fun infoHash n hget => ?_, fun n check hget => ?_, h.apart, fun n hn => ?_⟩
  · exact (hkeep fun heq => hunlisted infoHash (heq ▸ hget)).trans (h.listed infoHash n hget)
  · obtain ⟨infoHash, hcard⟩ := h.pending n check hget
    have hne : n ≠ number := by
      rintro rfl
      cases hsettled.symm.trans hget
    exact ⟨infoHash, (hkeep hne).trans hcard⟩
  · have hnone := h.numbered n hn
    show (if n ∈ [number] then (c.card n).map Card.shut else c.card n) = none
    rw [hnone, Option.map_none, ite_self]

theorem Orderly.list (h : c.Orderly) {check : Bool} {card : Card}
    (hadding : c.adding.get? number = some check) (hcard : c.card number = some card) :
    (c.list number card.infoHash).Orderly := by
  obtain ⟨infoHash, hpending⟩ := h.pending number check hadding
  cases hcard.symm.trans hpending
  have hrest := h.unpend number
  refine ⟨Table.nodup_keys_insert h.nodup _ _, fun ih n hget => ?_, hrest.pending,
    fun ih n hget => ?_,
    h.numbered⟩
  all_goals
    rw [Catalog.list, Table.get?_insert] at hget
    split at hget
  · next heq =>
    cases hget
    subst heq
    exact hpending
  · exact h.listed ih n hget
  · cases hget
    exact Table.get?_erase_self
  · exact hrest.apart ih n hget

theorem Orderly.reject (h : c.Orderly) {check : Bool}
    (hadding : c.adding.get? number = some check) : (c.reject number).Orderly := by
  have hunlisted : ∀ infoHash, c.torrents.get? infoHash ≠ some number := by
    intro infoHash hlisted
    cases (h.apart infoHash number hlisted).symm.trans hadding
  exact (h.unpend number).shut hunlisted Table.get?_erase_self

theorem Orderly.remove (h : c.Orderly) {infoHash : Identifier}
    (hlisted : c.torrents.get? infoHash = some number) : (c.remove infoHash number).Orderly := by
  refine (h.unlist infoHash).shut (fun ih hget => ?_) (h.apart infoHash number hlisted)
  rw [Table.get?_erase] at hget
  split at hget
  · cases hget
  · next hne => exact hne (h.listed_inj hget hlisted)

theorem Orderly.stop (h : c.Orderly) : c.stop.Orderly := by
  refine ⟨List.nodup_nil, fun infoHash n hget => (by cases hget), fun n check hget => ?_,
    fun infoHash n hget => (by cases hget), fun n hn => ?_⟩
  · have hmem : n ∈ c.torrents.values ++ c.adding.keys := by
      refine List.mem_append_right _ (Decidable.byContradiction fun hnot => ?_)
      have hpending : c.adding.get? n = some check := hget
      cases (Table.get?_eq_none_iff.mpr hnot).symm.trans hpending
    obtain ⟨infoHash, hcard⟩ := h.pending n check hget
    refine ⟨infoHash, (if_pos hmem).trans ?_⟩
    rw [hcard]
    rfl
  · have hnone := h.numbered n hn
    show (if n ∈ c.torrents.values ++ c.adding.keys then (c.card n).map Card.shut else c.card n)
      = none
    rw [hnone, Option.map_none, ite_self]

theorem Orderly.turn (h : c.Orderly) {event : Swarm.Event} (hturn : c.Turn event c') :
    c'.Orderly := by
  cases hturn with
  | idle _ _ hidle => exact h.idle hidle
  | begun t hnew => exact h.begin t.infoHash _
  | listed number check card hadding hcard hnew => exact h.list hadding hcard
  | rejected number check hadding => exact h.reject hadding
  | removed infoHash number hlisted => exact h.remove hlisted
  | stopped => exact h.stop

end Orderly

/-! ### No session is forgotten -/

def Accounted (c : Catalog) : Prop :=
  ∀ number card, c.card number = some card → card.cancelled = false →
    c.adding.get? number ≠ none ∨ c.torrents.get? card.infoHash = some number

theorem card_of_active {c : Catalog} (numbers : List Nat) {number : Nat} {card : Card}
    (h : (c.shut numbers).card number = some card) (hactive : card.cancelled = false) :
    number ∉ numbers ∧ c.card number = some card := by
  have hcard : (if number ∈ numbers then (c.card number).map Card.shut else c.card number)
      = some card := h
  split at hcard
  · obtain ⟨before, -, rfl⟩ := Option.map_eq_some_iff.mp hcard
    cases hactive
  · next hnot => exact ⟨hnot, hcard⟩

theorem Accounted.turn {c c' : Catalog} {event : Swarm.Event} (h : c.Accounted)
    (hturn : c.Turn event c') : c'.Accounted := by
  intro n card hcard hactive
  cases hturn with
  | idle _ _ hidle =>
      obtain ⟨next, -, rfl⟩ := hidle
      exact h n card hcard hactive
  | begun t hnew =>
      by_cases heq : n = c.nextNumber
      · refine Or.inl ?_
        rw [begin, Table.get?_insert, if_pos heq]
        exact Option.some_ne_none _
      · have hbefore : c.card n = some card := (Function.update_of_ne heq _ _).symm.trans hcard
        rw [begin, Table.get?_insert_of_ne heq]
        exact h n card hbefore hactive
  | listed number check card' hadding hcard' hnew =>
      rcases h n card hcard hactive with hpending | hlisted
      · by_cases heq : n = number
        · subst heq
          cases hcard.symm.trans hcard'
          exact Or.inr Table.get?_insert_self
        · refine Or.inl ?_
          rw [list, Table.get?_erase_of_ne heq]
          exact hpending
      · have hother : card.infoHash ≠ card'.infoHash := by
          intro heq
          rw [heq, hnew] at hlisted
          cases hlisted
        exact Or.inr ((Table.get?_insert_of_ne hother).trans hlisted)
  | rejected number check hadding =>
      obtain ⟨hnot, hbefore⟩ := card_of_active [number] hcard hactive
      rw [reject, Table.get?_erase, if_neg fun heq => hnot (List.mem_singleton.mpr heq)]
      exact h n card hbefore hactive
  | removed infoHash number hlisted =>
      obtain ⟨hnot, hbefore⟩ := card_of_active [number] hcard hactive
      refine (h n card hbefore hactive).imp_right fun hlisted' => ?_
      have hother : card.infoHash ≠ infoHash := by
        intro heq
        rw [heq, hlisted] at hlisted'
        cases hlisted'
        exact hnot List.mem_cons_self
      exact (Table.get?_erase_of_ne hother).trans hlisted'
  | stopped =>
      obtain ⟨hnot, hbefore⟩ := card_of_active (c.torrents.values ++ c.adding.keys) hcard hactive
      rw [List.mem_append, not_or] at hnot
      rcases h n card hbefore hactive with hpending | hlisted
      · exact absurd (Table.get?_eq_none_iff.mpr hnot.2) hpending
      · exact absurd (List.mem_map_of_mem (Table.mem_of_get? hlisted)) hnot.1

end Catalog

end TorrentCore
