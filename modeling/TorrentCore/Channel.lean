/-!
# Bounded channels

A channel is a queue with one receiver and a bounded number of places. Senders wait while it is
full. Once it is closed nothing more is accepted.
-/

namespace TorrentCore

/-- A bounded queue. -/
structure Channel (α : Type) where
  capacity : Nat
  items : List α
  closed : Bool
deriving DecidableEq, Repr, Inhabited

inductive Offer (α : Type) where
  | accepted (rest : Channel α)
  | full
  | refused

namespace Channel

variable {α : Type}

/-- An empty channel. It has at least one place. -/
def make (capacity : Nat) : Channel α := ⟨max capacity 1, [], false⟩

def offer (c : Channel α) (item : α) : Offer α :=
  if c.closed then .refused
  else if c.items.length < c.capacity then .accepted { c with items := c.items ++ [item] }
  else .full

def take? (c : Channel α) : Option (α × Channel α) :=
  match c.items with
  | [] => none
  | item :: rest => some (item, { c with items := rest })

def takeMany (c : Channel α) (count : Nat) : List α × Channel α :=
  (c.items.take count, { c with items := c.items.drop count })

/-- The receiver goes away. What was not received is dropped. -/
def shut (c : Channel α) : List α × Channel α := (c.items, { c with items := [], closed := true })

theorem offer_eq_accepted_iff {c c' : Channel α} {item : α} :
    c.offer item = .accepted c'
      ↔ c.closed = false ∧ c.items.length < c.capacity
        ∧ c' = { c with items := c.items ++ [item] } := by
  unfold offer
  split
  · next h => simp [h]
  · next h =>
    split
    · next h' =>
      rw [Offer.accepted.injEq]
      exact ⟨fun e => ⟨by simpa using h, h', e.symm⟩, fun e => e.2.2.symm⟩
    · next h' => simp [h']

theorem offer_eq_refused_iff {c : Channel α} {item : α} :
    c.offer item = .refused ↔ c.closed = true := by
  unfold offer
  split
  · next hclosed => exact ⟨fun _ => hclosed, fun _ => rfl⟩
  · next hopen =>
    refine ⟨fun h => ?_, fun hclosed => absurd hclosed hopen⟩
    split at h <;> cases h

end Channel

end TorrentCore
