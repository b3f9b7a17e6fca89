/-!
# Finite tables

A table maps keys to values and remembers the order in which keys came in. Putting a key that is
there already keeps its place. Every key occurs once as long as a table is built by these
operations.
-/

namespace TorrentCore

/-- A finite map, in the order of insertion. -/
structure Table (κ α : Type) where
  entries : List (κ × α)
deriving DecidableEq, Repr

namespace Table

variable {κ α : Type} [DecidableEq κ]

instance : Inhabited (Table κ α) := ⟨⟨[]⟩⟩

def empty : Table κ α := ⟨[]⟩

def find? (k : κ) : List (κ × α) → Option α
  | [] => none
  | e :: rest => if e.1 = k then some e.2 else find? k rest

def get? (t : Table κ α) (k : κ) : Option α := find? k t.entries

def contains (t : Table κ α) (k : κ) : Bool := (t.get? k).isSome

def keys (t : Table κ α) : List κ := t.entries.map Prod.fst

def values (t : Table κ α) : List α := t.entries.map Prod.snd

def size (t : Table κ α) : Nat := t.entries.length

def isEmpty (t : Table κ α) : Bool := t.entries.isEmpty

/-- Puts a value under a key, in the place of an earlier one. -/
def insert (t : Table κ α) (k : κ) (v : α) : Table κ α :=
  if t.contains k then ⟨t.entries.map fun e => if e.1 = k then (k, v) else e⟩
  else ⟨t.entries ++ [(k, v)]⟩

def erase (t : Table κ α) (k : κ) : Table κ α := ⟨t.entries.filter fun e => !decide (e.1 = k)⟩

def modify (t : Table κ α) (k : κ) (f : α → α) : Table κ α :=
  ⟨t.entries.map fun e => if e.1 = k then (e.1, f e.2) else e⟩

def filter (t : Table κ α) (keep : κ → α → Bool) : Table κ α :=
  ⟨t.entries.filter fun e => keep e.1 e.2⟩

section Lemmas

theorem find?_append (k : κ) (l l' : List (κ × α)) :
    find? k (l ++ l') = (find? k l).or (find? k l') := by
  induction l with
  | nil => rfl
  | cons e l ih => by_cases h : e.1 = k <;> simp [find?, h, ih]

theorem find?_map_replace (l : List (κ × α)) (k k' : κ) (v : α) :
    find? k' (l.map fun e => if e.1 = k then (k, v) else e)
      = if k' = k then (find? k l).map fun _ => v else find? k' l := by
  induction l with
  | nil => simp [find?]
  | cons e l ih => by_cases h : e.1 = k <;> by_cases h' : k' = k <;> grind [find?]

theorem find?_filter_ne (l : List (κ × α)) (k k' : κ) :
    find? k' (l.filter fun e => !decide (e.1 = k)) = if k' = k then none else find? k' l := by
  induction l with
  | nil => simp [find?]
  | cons e l ih => by_cases h : e.1 = k <;> by_cases h' : k' = k <;> grind [find?]

theorem get?_insert (t : Table κ α) (k k' : κ) (v : α) :
    (t.insert k v).get? k' = if k' = k then some v else t.get? k' := by
  unfold insert
  split
  · next hc =>
    simp only [get?, find?_map_replace]
    split
    · next h =>
      obtain ⟨w, hw⟩ := Option.isSome_iff_exists.mp hc
      have hw' : find? k t.entries = some w := hw
      simp [hw']
    · rfl
  · next hc =>
    have hn : find? k t.entries = none := by
      simpa [contains, get?] using hc
    simp only [get?, find?_append, find?]
    by_cases h : k' = k
    · subst h; simp [hn]
    · have h' : ¬ k = k' := fun e => h e.symm
      simp [h, h']

theorem get?_erase (t : Table κ α) (k k' : κ) :
    (t.erase k).get? k' = if k' = k then none else t.get? k' := by
  simp only [erase, get?, find?_filter_ne]

end Lemmas

end Table

end TorrentCore
