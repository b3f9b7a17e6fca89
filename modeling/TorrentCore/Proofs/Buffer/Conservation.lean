import TorrentCore.Buffer.Lending
import TorrentCore.Proofs.Buffer
import TorrentCore.Proofs.Table

/-!
# Buffers are neither lost nor kept in excess

A pool counts the buffers that are out and keeps some of the others. `BufferPool.Balanced` says how
its counters, its idle buffers and the number of buffers that are out fit together. Taking a buffer
raises that number by one and giving one back lowers it by one, so a lending stays balanced with the
number of its own live buffers, whatever its users do in whichever order. What a buffer has grown to
while it was out matters only when it comes back.
-/

namespace TorrentCore

namespace Buffer

theorem capacity_le_reserve (b : Buffer) (needed : Nat) :
    b.capacity ≤ (b.reserve needed).capacity := by
  unfold reserve
  split
  · exact Nat.le_refl b.capacity
  · show b.capacity ≤ max (2 * b.capacity) (max needed 8)
    omega

end Buffer

namespace BufferPool

/-- How a pool stands that makes buffers of this room, keeps at most `bound` of them and has `live`
buffers out. -/
structure Balanced (room bound live : Nat) (p : BufferPool) : Prop where
  bufferCapacity : p.bufferCapacity = room
  maxIdle : p.maxIdle = bound
  outstanding : p.outstanding = live
  available : p.available ≤ bound
  /-- Every buffer that is idle or out was made here, and once. -/
  made : p.available + p.outstanding ≤ p.allocations
  clean : p.Clean
  kept : ∀ b ∈ p.idle, p.keeps b = true

variable {room bound live : Nat} {p : BufferPool}

theorem keeps_iff {b : Buffer} :
    p.keeps b = true ↔ p.bufferCapacity ≤ b.capacity ∧ b.capacity ≤ 2 * p.bufferCapacity := by
  rw [keeps, Bool.and_eq_true, decide_eq_true_eq, decide_eq_true_eq]

theorem balanced_make (room bound : Nat) : (make room bound).Balanced room bound 0 :=
  ⟨rfl, rfl, rfl, Nat.zero_le bound, Nat.le_refl 0, clean_make room bound,
    fun _ h => absurd h List.not_mem_nil⟩

theorem allocations_take (p : BufferPool) :
    p.take.2.allocations = p.allocations + if p.idle = [] then 1 else 0 := by
  unfold take
  cases p.idle with
  | nil => rfl
  | cons b idle => rfl

theorem Balanced.take (h : p.Balanced room bound live) :
    p.take.2.Balanced room bound (live + 1) ∧ room ≤ p.take.1.capacity := by
  have hclean := h.clean.take.2
  have hcount := congrArg (· + 1) h.outstanding
  have hmade := h.made
  obtain ⟨bufferCapacity, maxIdle, idle, outstanding, allocations⟩ := p
  cases idle with
  | nil =>
      exact ⟨⟨h.bufferCapacity, h.maxIdle, hcount, h.available, Nat.succ_le_succ hmade, hclean,
        h.kept⟩, Nat.le_of_eq h.bufferCapacity.symm⟩
  | cons b idle =>
      refine ⟨⟨h.bufferCapacity, h.maxIdle, hcount, Nat.le_of_succ_le h.available, ?_, hclean,
        fun b' hb' => h.kept b' (List.mem_cons_of_mem b hb')⟩, ?_⟩
      · show idle.length + (outstanding + 1) ≤ allocations
        have hwas : idle.length + 1 + outstanding ≤ allocations := hmade
        omega
      · exact h.bufferCapacity ▸ (keeps_iff.mp (h.kept b List.mem_cons_self)).1

theorem Balanced.takeFilled (h : p.Balanced room bound live) (bytes : Bytes) :
    (p.takeFilled bytes).2.Balanced room bound (live + 1)
      ∧ room ≤ (p.takeFilled bytes).1.capacity :=
  ⟨h.take.1, Nat.le_trans h.take.2 (p.take.1.capacity_le_reserve _)⟩

/-- What becomes of a buffer that is given back: it is emptied and waits in front of the others if
its room is right and there is a place for it, and it is gone otherwise. -/
def disposal (room bound : Nat) (b : Buffer) (p : BufferPool) : BufferPool :=
  { p with
    outstanding := p.outstanding - 1
    idle := if (room ≤ b.capacity ∧ b.capacity ≤ 2 * room) ∧ p.available < bound
      then b.clear :: p.idle else p.idle }

theorem Balanced.giveBack_eq (h : p.Balanced room bound live) (b : Buffer) :
    p.giveBack b = p.disposal room bound b := by
  have hback : (p.keeps b && decide (p.idle.length < p.maxIdle)) = true
      ↔ (room ≤ b.capacity ∧ b.capacity ≤ 2 * room) ∧ p.available < bound := by
    rw [Bool.and_eq_true, decide_eq_true_eq, keeps_iff, h.bufferCapacity, h.maxIdle]
    rfl
  show (if (p.keeps b && decide (p.idle.length < p.maxIdle)) = true then
      { p with outstanding := p.outstanding - 1, idle := b.clear :: p.idle }
    else { p with outstanding := p.outstanding - 1 }) = _
  rw [disposal]
  split
  · next hkept => rw [if_pos (hback.mp hkept)]
  · next hkept => rw [if_neg fun h => hkept (hback.mpr h)]

theorem allocations_giveBack (p : BufferPool) (b : Buffer) :
    (p.giveBack b).allocations = p.allocations := by
  unfold giveBack
  simp only
  split <;> rfl

theorem allocations_giveBackAll (p : BufferPool) (buffers : List Buffer) :
    (p.giveBackAll buffers).allocations = p.allocations := by
  unfold giveBackAll
  induction buffers generalizing p with
  | nil => rfl
  | cons b buffers ih => rw [List.foldl_cons, ih, allocations_giveBack]

theorem Balanced.giveBack (h : p.Balanced room bound (live + 1)) (b : Buffer) :
    (p.giveBack b).Balanced room bound live := by
  have hcount := h.outstanding
  have hmade := h.made
  have hclean := h.clean.giveBack b
  rw [h.giveBack_eq] at hclean ⊢
  unfold disposal at hclean ⊢
  unfold BufferPool.available at hmade
  by_cases hback : (room ≤ b.capacity ∧ b.capacity ≤ 2 * room) ∧ p.available < bound
  · simp only [if_pos hback] at hclean ⊢
    refine ⟨h.bufferCapacity, h.maxIdle, Nat.sub_eq_of_eq_add hcount, hback.2, ?_, hclean, ?_⟩
    · show p.idle.length + 1 + (p.outstanding - 1) ≤ p.allocations
      omega
    · intro b' hb'
      cases hb' with
      | head => exact keeps_iff.mpr (h.bufferCapacity ▸ hback.1)
      | tail _ hold => exact h.kept b' hold
  · simp only [if_neg hback] at hclean ⊢
    refine ⟨h.bufferCapacity, h.maxIdle, Nat.sub_eq_of_eq_add hcount, h.available, ?_, hclean,
      h.kept⟩
    show p.idle.length + (p.outstanding - 1) ≤ p.allocations
    omega

theorem Balanced.giveBackAll {buffers : List Buffer}
    (h : p.Balanced room bound (live + buffers.length)) :
    (p.giveBackAll buffers).Balanced room bound live := by
  unfold BufferPool.giveBackAll
  induction buffers generalizing p with
  | nil => exact h
  | cons b buffers ih => exact ih (h.giveBack b)

end BufferPool

namespace Lending

inductive Act
  | borrow (name : String)
  | borrowFilled (name : String) (bytes : Bytes)
  | extend (name : String) (bytes : Bytes)
  | write (name : String) (position : Nat) (value : UInt8)
  | clear (name : String)
  | resize (name : String) (length : Nat)
  | giveBack (name : String)

def Act.takes : Act → Bool
  | .borrow _ => true
  | .borrowFilled _ _ => true
  | _ => false

def act (l : Lending) : Act → Lending
  | .borrow name => l.borrow name
  | .borrowFilled name bytes => l.borrowFilled name bytes
  | .extend name bytes => l.change name fun b => b.append bytes
  | .write name position value => l.change name fun b => b.set position value
  | .clear name => l.change name Buffer.clear
  | .resize name length => l.change name fun b => b.resize length
  | .giveBack name => l.giveBack name

def run (l : Lending) (acts : List Act) : Lending := acts.foldl act l

/-- The pool is balanced with the buffers that are out, each of which has a name of its own and
still the room it was made with. -/
structure Balanced (room bound : Nat) (l : Lending) : Prop where
  pool : l.pool.Balanced room bound l.out.size
  nodup : l.out.keys.Nodup
  roomy : ∀ e ∈ l.out.entries, room ≤ e.2.capacity

variable {room bound : Nat} {l : Lending}

theorem balanced_make (room bound : Nat) : (make room bound).Balanced room bound :=
  ⟨BufferPool.balanced_make room bound, List.nodup_nil, fun _ h => absurd h List.not_mem_nil⟩

theorem Balanced.put (h : l.Balanced room bound) (name : String) {b : Buffer} {pool : BufferPool}
    (hpool : pool.Balanced room bound (l.out.size + 1)) (hb : room ≤ b.capacity) :
    (l.put name b pool).Balanced room bound := by
  refine ⟨BufferPool.Balanced.giveBackAll ?_, Table.nodup_keys_insert h.nodup name b, ?_⟩
  · rwa [Lending.put, Table.size_insert]
  · intro e he
    rcases Table.mem_insert he with rfl | hold
    · exact hb
    · exact h.roomy e hold

theorem Balanced.change (h : l.Balanced room bound) (name : String) {f : Buffer → Buffer}
    (hf : ∀ b, b.capacity ≤ (f b).capacity) : (l.change name f).Balanced room bound := by
  have hsize : (l.change name f).out.size = l.out.size := List.length_map _
  refine ⟨?_, ?_, ?_⟩
  · rw [hsize]
    exact h.pool
  · show (l.out.modify name f).keys.Nodup
    rw [Table.keys_modify]
    exact h.nodup
  · intro e he
    obtain ⟨e', he', rfl⟩ := List.mem_map.mp he
    split
    · exact Nat.le_trans (h.roomy e' he') (hf e'.2)
    · exact h.roomy e' he'

theorem Balanced.giveBack (h : l.Balanced room bound) (name : String) :
    (l.giveBack name).Balanced room bound := by
  refine ⟨BufferPool.Balanced.giveBackAll ?_, Table.nodup_keys_erase h.nodup name, ?_⟩
  · rw [Lending.giveBack, Table.size_erase h.nodup]
    exact h.pool
  · exact fun e he => h.roomy e (List.mem_filter.mp he).1

theorem Balanced.act (h : l.Balanced room bound) (a : Act) : (l.act a).Balanced room bound := by
  cases a with
  | borrow name => exact h.put name h.pool.take.1 h.pool.take.2
  | borrowFilled name bytes =>
      exact h.put name (h.pool.takeFilled bytes).1 (h.pool.takeFilled bytes).2
  | extend name bytes => exact h.change name fun b => b.capacity_le_reserve _
  | write name position value => exact h.change name fun b => Nat.le_refl b.capacity
  | clear name => exact h.change name fun b => Nat.le_refl b.capacity
  | resize name length => exact h.change name fun b => b.capacity_le_reserve length
  | giveBack name => exact h.giveBack name

theorem Balanced.run (h : l.Balanced room bound) (acts : List Act) :
    (l.run acts).Balanced room bound := by
  induction acts generalizing l with
  | nil => exact h
  | cons a acts ih => exact ih (h.act a)

theorem allocations_act (l : Lending) (a : Act) :
    (l.act a).pool.allocations
      = l.pool.allocations + if a.takes = true ∧ l.pool.idle = [] then 1 else 0 := by
  have htake : l.pool.take.2.allocations
      = l.pool.allocations + if true = true ∧ l.pool.idle = [] then 1 else 0 := by
    rw [BufferPool.allocations_take]
    simp only [true_and]
  have hkeep : l.pool.allocations
      = l.pool.allocations + if false = true ∧ l.pool.idle = [] then 1 else 0 := by
    rw [if_neg (fun h => Bool.false_ne_true h.1), Nat.add_zero]
  cases a with
  | borrow name => exact (BufferPool.allocations_giveBackAll _ _).trans htake
  | borrowFilled name bytes => exact (BufferPool.allocations_giveBackAll _ _).trans htake
  | giveBack name => exact (BufferPool.allocations_giveBackAll _ _).trans hkeep
  | extend | write | clear | resize => exact hkeep

theorem giveBackEverything_eq_run (h : l.out.keys.Nodup) :
    l.giveBackEverything = l.run (l.out.keys.map Act.giveBack) := by
  obtain ⟨pool, ⟨entries⟩⟩ := l
  induction entries generalizing pool with
  | nil => rfl
  | cons e rest ih =>
      have hfirst : Table.get? ⟨e :: rest⟩ e.1 = some e.2 := if_pos rfl
      have hrest : Table.erase ⟨e :: rest⟩ e.1 = ⟨rest⟩ := by
        rw [Table.erase, List.filter_cons_of_neg (by simp only [decide_true]; decide)]
        refine congrArg Table.mk (List.filter_eq_self.mpr fun e' he' => ?_)
        have hne : e'.1 ≠ e.1 := fun heq =>
          (List.nodup_cons.mp h).1 (heq ▸ List.mem_map_of_mem he')
        rw [decide_eq_false hne]
        rfl
      have hstep : Lending.act ⟨pool, ⟨e :: rest⟩⟩ (.giveBack e.1)
          = ⟨pool.giveBack e.2, ⟨rest⟩⟩ := by
        rw [act, giveBack, hfirst, hrest]
        rfl
      show _ = Lending.run (Lending.act ⟨pool, ⟨e :: rest⟩⟩ (.giveBack e.1)) _
      rw [hstep]
      exact ih (pool.giveBack e.2) (List.nodup_cons.mp h).2

/-- A pool conserves its buffers, through every history of what is done with it. -/
theorem run_conserves (room bound : Nat) (acts : List Act) :
    let l := (make room bound).run acts
    (l.out.keys.Nodup ∧ l.pool.outstanding = l.out.size)
      ∧ l.pool.available ≤ bound
      ∧ l.pool.available + l.pool.outstanding ≤ l.pool.allocations
      ∧ (∀ a, (l.act a).pool.allocations
        = l.pool.allocations + if a.takes = true ∧ l.pool.idle = [] then 1 else 0)
      ∧ (∀ b ∈ l.pool.idle, b.bytes = [] ∧ room ≤ b.capacity ∧ b.capacity ≤ 2 * room)
      ∧ (∀ name, (l.borrow name).out.get? name = some l.pool.take.1 ∧ l.pool.take.1.bytes = [])
      ∧ (∀ name bytes, ((l.borrowFilled name bytes).out.get? name).map Buffer.bytes = some bytes)
      ∧ (∀ name b, l.out.get? name = some b → room ≤ b.capacity
        ∧ (l.giveBack name).out = l.out.erase name
        ∧ (l.giveBack name).pool = l.pool.disposal room bound b
        ∧ (l.borrow name).pool = l.pool.take.2.disposal room bound b
        ∧ ∀ bytes, (l.borrowFilled name bytes).pool = l.pool.take.2.disposal room bound b)
      ∧ l.giveBackEverything.pool.outstanding = 0 := by
  intro l
  have h : l.Balanced room bound := (balanced_make room bound).run acts
  refine ⟨⟨h.nodup, h.pool.outstanding⟩, h.pool.available, h.pool.made, allocations_act l,
    fun b hb => ⟨h.pool.clean b hb, ?_⟩, fun name => ⟨?_, h.pool.clean.take.1⟩,
    fun name bytes => ?_, fun name b hb => ⟨?_, rfl, ?_⟩, ?_⟩
  · have hkept := BufferPool.keeps_iff.mp (h.pool.kept b hb)
    rwa [h.pool.bufferCapacity] at hkept
  · exact Table.get?_insert_self
  · rw [borrowFilled, put, Table.get?_insert_self, Option.map_some,
      (h.pool.clean.takeFilled bytes).1]
  · exact h.roomy _ (Table.mem_of_get? hb)
  · -- The buffer under a name in use comes back to a pool from which its successor was taken.
    have hreplaced : l.pool.take.2.giveBackAll (l.out.get? name).toList
        = l.pool.take.2.disposal room bound b := by
      rw [hb]
      exact h.pool.take.1.giveBack_eq b
    refine ⟨?_, hreplaced, fun bytes => hreplaced⟩
    rw [giveBack, hb]
    exact h.pool.giveBack_eq b
  · rw [giveBackEverything_eq_run h.nodup, (h.run _).pool.outstanding,
      ← giveBackEverything_eq_run h.nodup]
    rfl

/-- A buffer that has grown past twice the room of its pool does not come back into it. -/
example : ((make 4 2).run [.borrowFilled "a" [1, 2, 3],
      .borrowFilled "b" [1, 2, 3, 4, 5, 6, 7, 8, 9], .giveBack "a", .giveBack "b"]).pool
    = ⟨4, 2, [⟨4, []⟩], 0, 2⟩ := by
  decide

end Lending

end TorrentCore
