import TorrentCore.Assembly.Workbench
import TorrentCore.Proofs.Assembly.Ranges
import TorrentCore.Proofs.Buffer
import TorrentCore.Proofs.Table

/-!
# Who holds the blocks

A buffer that was taken for a block is at every moment in one place: in the block, in the slot that
took it, or in the assembled piece. A `Workshop` has a pool and all these things, and whatever is
done in it moves buffers from place to place or gives them back. So the pool's count of the buffers
that are out is the sum over the places.

Two facts about an assembler carry the sum: a slot that takes a block was empty, and an assembler
that has handed its blocks over has no slots left to drop.
-/

namespace TorrentCore

namespace Assembler

variable {a a' : Assembler} {b : Block} {piece : AssembledPiece}

/-- How many slots are filled, as long as nothing was handed over. -/
def filled (a : Assembler) : Nat := if a.completed then 0 else a.slots.countP Option.isSome

theorem Reached.slots_of_completed (h : a.Reached) : a.completed = true → a.slots = [] := by
  induction h with
  | make piece length blockSize => exact fun hdone => Bool.noConfusion hdone
  | @add a a' b _ hadd _ =>
      intro hdone
      obtain ⟨haccepts, rfl⟩ := add?_eq_some_iff.mp hadd
      exact absurd hdone (Bool.eq_false_iff.mp (accepts_iff.mp haccepts).1)
  | @complete a a' p _ hcomplete _ =>
      intro _
      obtain ⟨-, -, -, rfl⟩ := complete?_eq_some_iff.mp hcomplete
      rfl

theorem Reached.length_held (h : a.Reached) : a.held.length = a.filled := by
  have hcount : a.held.length = a.slots.countP Option.isSome :=
    List.length_filterMap_eq_countP
  unfold filled
  split
  · next hdone =>
    rw [hcount, h.slots_of_completed hdone]
    rfl
  · exact hcount

theorem Reached.filled_eq_received (h : a.Reached) (hopen : a.completed = false) :
    a.filled = a.received := by
  rw [filled, hopen, (h.filling hopen).received_eq]
  rfl

theorem Reached.filled_add (h : a.Reached) (hadd : a.add? b = some a') :
    a'.filled = a.filled + 1 := by
  have hreached := h.add hadd
  obtain ⟨haccepts, rfl⟩ := add?_eq_some_iff.mp hadd
  have hopen := (accepts_iff.mp haccepts).1
  rw [hreached.filled_eq_received hopen, h.filled_eq_received hopen]

/-- The blocks are those of the slots, in their order, and none is left behind. -/
theorem Reached.complete_moves (h : a.Reached) (hcomplete : a.complete? = some (piece, a')) :
    piece.blocks.map some = a.slots ∧ a'.held = [] ∧ piece.blocks.length = a.filled
      ∧ a'.filled = 0 := by
  obtain ⟨-, hslots, rfl, rfl⟩ := complete?_eq_some_iff.mp hcomplete
  exact ⟨hslots.symm, rfl, h.length_held, rfl⟩

end Assembler

/-! ### Assemblers with and without an owner -/

inductive Receptacle
  | plain (assembler : Assembler)
  | owned (buffer : PieceBuffer)

namespace Receptacle

variable {r r' : Receptacle} {b : Block} {piece : AssembledPiece}

def assembler : Receptacle → Assembler
  | plain a => a
  | owned p => p.assembler

def of (owner : Option Identifier) (assembler : Assembler) : Receptacle :=
  match owner with
  | none => plain assembler
  | some owner => owned ⟨owner, assembler⟩

def assign (r : Receptacle) (owner : Identifier) : Receptacle :=
  match r with
  | plain a => plain a
  | owned p => owned { p with owner := owner }

def add? (r : Receptacle) (b : Block) : Option Receptacle :=
  match r with
  | plain a => (a.add? b).map plain
  | owned p => (p.add? b).map owned

def complete? : Receptacle → Option (AssembledPiece × Receptacle)
  | plain a => a.complete?.map fun (piece, a) => (piece, plain a)
  | owned p => p.complete?.map fun (piece, p) => (piece, owned p)

theorem assembler_of (owner : Option Identifier) (a : Assembler) : (of owner a).assembler = a := by
  cases owner <;> rfl

theorem assembler_assign (r : Receptacle) (owner : Identifier) :
    (r.assign owner).assembler = r.assembler := by
  cases r <;> rfl

theorem add?_eq_some (h : r.add? b = some r') : r.assembler.add? b = some r'.assembler := by
  cases r with
  | plain a =>
      obtain ⟨a', hadd, rfl⟩ := Option.map_eq_some_iff.mp h
      exact hadd
  | owned p =>
      obtain ⟨p', hadd, rfl⟩ := Option.map_eq_some_iff.mp h
      exact PieceBuffer.add?_eq_some hadd

theorem complete?_eq_some (h : r.complete? = some (piece, r')) :
    r.assembler.complete? = some (piece, r'.assembler) := by
  cases r with
  | plain a =>
      obtain ⟨⟨piece', a'⟩, hcomplete, he⟩ := Option.map_eq_some_iff.mp h
      cases he
      exact hcomplete
  | owned p =>
      obtain ⟨⟨piece', p'⟩, hcomplete, he⟩ := Option.map_eq_some_iff.mp h
      cases he
      exact PieceBuffer.complete?_eq_some hcomplete

end Receptacle

/-! ### The workshop -/

/-- A pool and what holds its buffers, each thing under a name. Whoever puts a thing under a name in
use drops the one that was there. -/
structure Workshop where
  pool : BufferPool
  blocks : Table String Block
  receptacles : Table String Receptacle
  pieces : Table String AssembledPiece

namespace Workshop

def make (pool : BufferPool) : Workshop := ⟨pool, .empty, .empty, .empty⟩

inductive Thing
  | block (name : String)
  | receptacle (name : String)
  | piece (name : String)
deriving DecidableEq

def Has (w : Workshop) : Thing → Prop
  | .block name => name ∈ w.blocks.keys
  | .receptacle name => name ∈ w.receptacles.keys
  | .piece name => name ∈ w.pieces.keys

def buffersOf (w : Workshop) : Thing → List Buffer
  | .block name => ((w.blocks.get? name).map Block.data).toList
  | .receptacle name => ((w.receptacles.get? name).map fun r => r.assembler.held).getD []
  | .piece name => ((w.pieces.get? name).map AssembledPiece.blocks).getD []

def poolWithout (w : Workshop) (t : Thing) : BufferPool := w.pool.giveBackAll (w.buffersOf t)

def take (w : Workshop) (name : String) (sender : Identifier) (piece offset : Nat)
    (bytes : Bytes) : Workshop :=
  { w with
    pool := (w.pool.takeFilled bytes).2.giveBackAll (w.buffersOf (.block name))
    blocks := w.blocks.insert name ⟨sender, piece, offset, (w.pool.takeFilled bytes).1⟩ }

def setUp (w : Workshop) (name : String) (r : Receptacle) : Workshop :=
  { w with pool := w.poolWithout (.receptacle name), receptacles := w.receptacles.insert name r }

def offer (w : Workshop) (block receptacle : String) : Workshop :=
  match w.blocks.get? block, w.receptacles.get? receptacle with
  | some b, some r =>
    match r.add? b with
    | some r' =>
      { w with blocks := w.blocks.erase block, receptacles := w.receptacles.insert receptacle r' }
    | none => { w with pool := w.pool.giveBack b.data, blocks := w.blocks.erase block }
  | _, _ => w

def complete (w : Workshop) (receptacle piece : String) : Workshop :=
  match (w.receptacles.get? receptacle).bind Receptacle.complete? with
  | some (whole, r) =>
    { w with
      pool := w.poolWithout (.piece piece)
      receptacles := w.receptacles.insert receptacle r
      pieces := w.pieces.insert piece whole }
  | none => w

def drop (w : Workshop) (t : Thing) : Workshop :=
  match t with
  | .block name => { w with pool := w.poolWithout t, blocks := w.blocks.erase name }
  | .receptacle name => { w with pool := w.poolWithout t, receptacles := w.receptacles.erase name }
  | .piece name => { w with pool := w.poolWithout t, pieces := w.pieces.erase name }

section Moves

variable {w : Workshop} {block receptacle piece : String} {b : Block} {r r' : Receptacle}
  {whole : AssembledPiece}

theorem offer_of_refused (hb : w.blocks.get? block = some b)
    (hr : w.receptacles.get? receptacle = some r) (hadd : r.add? b = none) :
    w.offer block receptacle
      = { w with pool := w.pool.giveBack b.data, blocks := w.blocks.erase block } := by
  simp only [offer, hb, hr, hadd]

theorem offer_of_accepted (hb : w.blocks.get? block = some b)
    (hr : w.receptacles.get? receptacle = some r) (hadd : r.add? b = some r') :
    w.offer block receptacle
      = { w with
        blocks := w.blocks.erase block
        receptacles := w.receptacles.insert receptacle r' } := by
  simp only [offer, hb, hr, hadd]

theorem complete_of_complete? (hr : w.receptacles.get? receptacle = some r)
    (hcomplete : r.complete? = some (whole, r')) :
    w.complete receptacle piece
      = { w with
        pool := w.poolWithout (.piece piece)
        receptacles := w.receptacles.insert receptacle r'
        pieces := w.pieces.insert piece whole } := by
  simp only [complete, hr, Option.bind_some, hcomplete]

end Moves

inductive Act
  | take (name : String) (sender : Identifier) (piece offset : Nat) (bytes : Bytes)
  | setUp (name : String) (owner : Option Identifier) (piece length blockSize : Nat)
  | assign (name : String) (owner : Identifier)
  | offer (block receptacle : String)
  | complete (receptacle piece : String)
  | drop (thing : Thing)

def act (w : Workshop) : Act → Workshop
  | .take name sender piece offset bytes => w.take name sender piece offset bytes
  | .setUp name owner piece length blockSize =>
    w.setUp name (.of owner (.make piece length blockSize))
  | .assign name owner => { w with receptacles := w.receptacles.modify name (·.assign owner) }
  | .offer block receptacle => w.offer block receptacle
  | .complete receptacle piece => w.complete receptacle piece
  | .drop thing => w.drop thing

def run (w : Workshop) (acts : List Act) : Workshop := acts.foldl act w

/-! ### The count -/

/-- How many buffers there are in all places. -/
def held (w : Workshop) : Nat :=
  w.blocks.size + (w.receptacles.values.map fun r => r.assembler.filled).sum
    + (w.pieces.values.map fun piece => piece.blocks.length).sum

/-- Besides the buffers that others have, those are out that are in some place here. -/
structure Balanced (others : Nat) (w : Workshop) : Prop where
  blocks : w.blocks.keys.Nodup
  receptacles : w.receptacles.keys.Nodup
  pieces : w.pieces.keys.Nodup
  reached : ∀ e ∈ w.receptacles.entries, e.2.assembler.Reached
  outstanding : w.pool.outstanding = others + w.held

variable {others : Nat} {w : Workshop}

theorem balanced_make (p : BufferPool) : (make p).Balanced p.outstanding :=
  ⟨List.nodup_nil, List.nodup_nil, List.nodup_nil, fun _ h => absurd h List.not_mem_nil, rfl⟩

theorem Balanced.reached_of_get? (h : w.Balanced others) {name : String} {r : Receptacle}
    (hr : w.receptacles.get? name = some r) : r.assembler.Reached :=
  h.reached _ (Table.mem_of_get? hr)

theorem Balanced.reached_insert (h : w.Balanced others) {name : String} {r : Receptacle}
    (hr : r.assembler.Reached) :
    ∀ e ∈ (w.receptacles.insert name r).entries, e.2.assembler.Reached := by
  intro e he
  rcases Table.mem_insert he with rfl | hold
  · exact hr
  · exact h.reached e hold

theorem length_buffersOf_block (w : Workshop) (name : String) :
    (w.buffersOf (.block name)).length = (w.blocks.get? name).toList.length := by
  show ((w.blocks.get? name).map Block.data).toList.length = _
  cases w.blocks.get? name <;> rfl

theorem Balanced.length_buffersOf_receptacle (h : w.Balanced others) (name : String) :
    (w.buffersOf (.receptacle name)).length
      = w.receptacles.weightAt (fun r => r.assembler.filled) name := by
  show (((w.receptacles.get? name).map fun r => r.assembler.held).getD []).length
    = ((w.receptacles.get? name).map fun r => r.assembler.filled).getD 0
  cases hget : w.receptacles.get? name with
  | none => rfl
  | some r => exact (h.reached_of_get? hget).length_held

theorem length_buffersOf_piece (w : Workshop) (name : String) :
    (w.buffersOf (.piece name)).length
      = w.pieces.weightAt (fun piece => piece.blocks.length) name := by
  show (((w.pieces.get? name).map AssembledPiece.blocks).getD []).length
    = ((w.pieces.get? name).map fun piece => piece.blocks.length).getD 0
  cases w.pieces.get? name <;> rfl

theorem Balanced.take (h : w.Balanced others) (name : String) (sender : Identifier)
    (piece offset : Nat) (bytes : Bytes) :
    (w.take name sender piece offset bytes).Balanced others := by
  refine ⟨Table.nodup_keys_insert h.blocks _ _, h.receptacles, h.pieces, h.reached, ?_⟩
  have hsize := Table.size_insert w.blocks name
    ⟨sender, piece, offset, (w.pool.takeFilled bytes).1⟩
  have hcount := h.outstanding
  have hback := w.length_buffersOf_block name
  simp only [Workshop.take, held, BufferPool.outstanding_giveBackAll,
    BufferPool.outstanding_takeFilled] at hcount ⊢
  omega

theorem Balanced.setUp (h : w.Balanced others) (name : String) {r : Receptacle}
    (hr : r.assembler.Reached) (hempty : r.assembler.filled = 0) :
    (w.setUp name r).Balanced others := by
  refine ⟨h.blocks, Table.nodup_keys_insert h.receptacles _ _, h.pieces, h.reached_insert hr, ?_⟩
  have hsum := Table.sum_values_insert h.receptacles (fun r => r.assembler.filled) name r
  have hcount := h.outstanding
  have hback := h.length_buffersOf_receptacle name
  simp only [Workshop.setUp, poolWithout, held, BufferPool.outstanding_giveBackAll] at hcount ⊢
  omega

theorem Balanced.assign (h : w.Balanced others) (name : String) (owner : Identifier) :
    (w.act (.assign name owner)).Balanced others := by
  have hsum := Table.map_values_modify w.receptacles name (f := (·.assign owner))
    (g := fun r => r.assembler.filled) fun r => congrArg _ (r.assembler_assign owner)
  refine ⟨h.blocks, ?_, h.pieces, ?_, ?_⟩
  · show (w.receptacles.modify name (·.assign owner)).keys.Nodup
    rw [Table.keys_modify]
    exact h.receptacles
  · intro e he
    obtain ⟨e', he', rfl⟩ := List.mem_map.mp he
    split
    · show (e'.2.assign owner).assembler.Reached
      rw [Receptacle.assembler_assign]
      exact h.reached e' he'
    · exact h.reached e' he'
  · show w.pool.outstanding = others + (w.blocks.size
      + ((w.receptacles.modify name (·.assign owner)).values.map _).sum + _)
    rw [hsum]
    exact h.outstanding

theorem Balanced.offer (h : w.Balanced others) (block receptacle : String) :
    (w.offer block receptacle).Balanced others := by
  unfold Workshop.offer
  split
  · next b r hblock hr =>
    have hreached := h.reached_of_get? hr
    have hsize := Table.size_erase h.blocks block
    rw [hblock] at hsize
    have hcount := h.outstanding
    split
    · next r' hadd =>
      have hadd' := Receptacle.add?_eq_some hadd
      refine ⟨Table.nodup_keys_erase h.blocks block, Table.nodup_keys_insert h.receptacles _ _,
        h.pieces, h.reached_insert (hreached.add hadd'), ?_⟩
      have hsum := Table.sum_values_insert h.receptacles (fun r => r.assembler.filled) receptacle r'
      have hfilled := hreached.filled_add hadd'
      simp only [Table.weightAt, hr, Option.map_some, Option.getD_some] at hsum
      simp only [held, Option.toList_some, List.length_singleton] at hcount hsize ⊢
      omega
    · refine ⟨Table.nodup_keys_erase h.blocks block, h.receptacles, h.pieces, h.reached, ?_⟩
      simp only [held, Option.toList_some, List.length_singleton,
        BufferPool.outstanding_giveBack] at hcount hsize ⊢
      omega
  · exact h

theorem Balanced.complete (h : w.Balanced others) (receptacle piece : String) :
    (w.complete receptacle piece).Balanced others := by
  unfold Workshop.complete
  split
  · next whole r' hcomplete =>
    obtain ⟨r, hr, hcomplete⟩ := Option.bind_eq_some_iff.mp hcomplete
    have hreached := h.reached_of_get? hr
    have hcomplete' := Receptacle.complete?_eq_some hcomplete
    obtain ⟨-, -, hmoved, hnone⟩ := hreached.complete_moves hcomplete'
    refine ⟨h.blocks, Table.nodup_keys_insert h.receptacles _ _,
      Table.nodup_keys_insert h.pieces _ _, h.reached_insert (hreached.complete hcomplete'), ?_⟩
    have hslots := Table.sum_values_insert h.receptacles (fun r => r.assembler.filled) receptacle r'
    have hpieces := Table.sum_values_insert h.pieces (fun piece => piece.blocks.length) piece whole
    have hback := w.length_buffersOf_piece piece
    have hcount := h.outstanding
    simp only [Table.weightAt, hr, Option.map_some, Option.getD_some] at hslots
    simp only [poolWithout, held, BufferPool.outstanding_giveBackAll] at hcount ⊢
    omega
  · exact h

theorem Balanced.drop (h : w.Balanced others) (t : Thing) : (w.drop t).Balanced others := by
  have hcount := h.outstanding
  cases t with
  | block name =>
      refine ⟨Table.nodup_keys_erase h.blocks name, h.receptacles, h.pieces, h.reached, ?_⟩
      have hsize := Table.size_erase h.blocks name
      have hback := w.length_buffersOf_block name
      simp only [Workshop.drop, poolWithout, held, BufferPool.outstanding_giveBackAll] at hcount ⊢
      omega
  | receptacle name =>
      refine ⟨h.blocks, Table.nodup_keys_erase h.receptacles name, h.pieces,
        fun e he => h.reached e (List.mem_filter.mp he).1, ?_⟩
      have hsum := Table.sum_values_erase h.receptacles (fun r => r.assembler.filled) name
      have hback := h.length_buffersOf_receptacle name
      simp only [Workshop.drop, poolWithout, held, BufferPool.outstanding_giveBackAll] at hcount ⊢
      omega
  | piece name =>
      refine ⟨h.blocks, h.receptacles, Table.nodup_keys_erase h.pieces name, h.reached, ?_⟩
      have hsum := Table.sum_values_erase h.pieces (fun piece => piece.blocks.length) name
      have hback := w.length_buffersOf_piece name
      simp only [Workshop.drop, poolWithout, held, BufferPool.outstanding_giveBackAll] at hcount ⊢
      omega

theorem Balanced.act (h : w.Balanced others) (a : Act) : (w.act a).Balanced others := by
  cases a with
  | take name sender piece offset bytes => exact h.take name sender piece offset bytes
  | setUp name owner piece length blockSize =>
      have hmake := Assembler.Reached.make piece length blockSize
      refine h.setUp name ?_ ?_
      · rw [Receptacle.assembler_of]
        exact hmake
      · rw [Receptacle.assembler_of, hmake.filled_eq_received rfl]
        rfl
  | assign name owner => exact h.assign name owner
  | offer block receptacle => exact h.offer block receptacle
  | complete receptacle piece => exact h.complete receptacle piece
  | drop thing => exact h.drop thing

theorem Balanced.run (h : w.Balanced others) (acts : List Act) : (w.run acts).Balanced others := by
  induction acts generalizing w with
  | nil => exact h
  | cons a acts ih => exact ih (h.act a)

/-! ### When everything is dropped -/

theorem has_drop_iff {t t' : Thing} : (w.drop t).Has t' ↔ w.Has t' ∧ t' ≠ t := by
  cases t <;> cases t' <;> simp [drop, Has, Table.mem_keys_erase]

theorem has_run_drops {t : Thing} {order : List Thing} :
    (w.run (order.map Act.drop)).Has t ↔ w.Has t ∧ t ∉ order := by
  induction order generalizing w with
  | nil => simp [run]
  | cons first order ih =>
      have hrest : (w.run ((first :: order).map Act.drop)).Has t
          ↔ (w.drop first).Has t ∧ t ∉ order := ih
      rw [hrest, has_drop_iff, List.mem_cons, not_or, and_assoc]

theorem held_of_nothing (h : ∀ t, ¬ w.Has t) : w.held = 0 := by
  have hblocks : w.blocks.keys = [] := List.eq_nil_iff_forall_not_mem.mpr fun name =>
    h (.block name)
  have hreceptacles : w.receptacles.keys = [] :=
    List.eq_nil_iff_forall_not_mem.mpr fun name => h (.receptacle name)
  have hpieces : w.pieces.keys = [] := List.eq_nil_iff_forall_not_mem.mpr fun name =>
    h (.piece name)
  rw [held, ← Table.length_keys, Table.values, Table.values, List.map_eq_nil_iff.mp hreceptacles,
    List.map_eq_nil_iff.mp hpieces, hblocks]
  rfl

/-! ### The moves -/

/-- How buffers go from one place to the next. -/
structure HandsOn (w : Workshop) : Prop where
  refused : ∀ (block receptacle : String) {b : Block} {r : Receptacle},
    w.blocks.get? block = some b → w.receptacles.get? receptacle = some r → r.add? b = none →
    w.offer block receptacle
        = { w with pool := w.pool.giveBack b.data, blocks := w.blocks.erase block }
      ∧ (w.offer block receptacle).pool.outstanding + 1 = w.pool.outstanding
  accepted : ∀ (block receptacle : String) {b : Block} {r r' : Receptacle},
    w.blocks.get? block = some b → w.receptacles.get? receptacle = some r → r.add? b = some r' →
    w.offer block receptacle
        = { w with
          blocks := w.blocks.erase block
          receptacles := w.receptacles.insert receptacle r' }
      ∧ r'.assembler.filled = r.assembler.filled + 1
  /-- What is completed has just the buffers of the slots, and there are no slots after that. -/
  completed : ∀ (receptacle piece : String) {r r' : Receptacle} {whole : AssembledPiece},
    w.receptacles.get? receptacle = some r → r.complete? = some (whole, r') →
    w.pieces.get? piece = none →
    w.complete receptacle piece
        = { w with
          receptacles := w.receptacles.insert receptacle r'
          pieces := w.pieces.insert piece whole }
      ∧ whole.blocks.map some = r.assembler.slots ∧ r'.assembler.slots = []
  unready : ∀ (receptacle piece : String) {r : Receptacle},
    w.receptacles.get? receptacle = some r → r.complete? = none → w.complete receptacle piece = w
  emptied : ∀ (receptacle : String) {r : Receptacle},
    w.receptacles.get? receptacle = some r → r.assembler.completed = true →
    w.drop (.receptacle receptacle)
      = { w with receptacles := w.receptacles.erase receptacle }

theorem Balanced.handsOn (h : w.Balanced others) : w.HandsOn where
  refused := by
    intro block receptacle b r hb hr hadd
    have hone : 0 < w.blocks.size := List.length_pos_of_mem (Table.mem_of_get? hb)
    have hcount := h.outstanding
    refine ⟨offer_of_refused hb hr hadd, ?_⟩
    rw [offer_of_refused hb hr hadd, BufferPool.outstanding_giveBack]
    unfold held at hcount
    omega
  accepted _ _ _ _ _ hb hr hadd :=
    ⟨offer_of_accepted hb hr hadd,
      (h.reached_of_get? hr).filled_add (Receptacle.add?_eq_some hadd)⟩
  completed := by
    intro receptacle piece r r' whole hr hcomplete hnew
    have hcomplete' := Receptacle.complete?_eq_some hcomplete
    obtain ⟨-, -, -, hr'⟩ := Assembler.complete?_eq_some_iff.mp hcomplete'
    refine ⟨?_, ((h.reached_of_get? hr).complete_moves hcomplete').1, congrArg _ hr'⟩
    rw [complete_of_complete? hr hcomplete, poolWithout, buffersOf, hnew]
    rfl
  unready := by
    intro receptacle piece r hr hcomplete
    simp only [Workshop.complete, hr, Option.bind_some, hcomplete]
  emptied := by
    intro receptacle r hr hdone
    have hheld : r.assembler.held = [] := by
      rw [Assembler.held, (h.reached_of_get? hr).slots_of_completed hdone]
      rfl
    rw [Workshop.drop, poolWithout, buffersOf, hr, Option.map_some, hheld]
    rfl

/-! ### The workbench -/

/-- A workbench is a workshop with one receptacle and a place for one piece. -/
def ofWorkbench (b : Workbench) : Workshop where
  pool := b.pool
  blocks := .empty
  receptacles := ⟨[("slots", .of b.owner b.assembler)]⟩
  pieces := ⟨(b.kept.map fun piece => ("kept", piece)).toList⟩

theorem setUp_ofWorkbench (p : BufferPool) (owner : Option Identifier)
    (piece length blockSize : Nat) :
    (make p).act (.setUp "slots" owner piece length blockSize)
      = ofWorkbench (.make p owner piece length blockSize) := rfl

theorem add?_of (b : Workbench) (block : Block) :
    (Receptacle.of b.owner b.assembler).add? block
      = (b.accept? block).map (Receptacle.of b.owner) := by
  obtain ⟨pool, assembler, owner, kept⟩ := b
  cases owner with
  | none => rfl
  | some owner =>
      simp only [Receptacle.of, Receptacle.add?, Workbench.accept?, PieceBuffer.add?]
      split
      · rfl
      · rw [Option.map_map, Option.map_map, Option.map_map]
        rfl

theorem run_ofWorkbench (b : Workbench) (sender : Identifier) (piece offset : Nat)
    (bytes : Bytes) :
    (ofWorkbench b).run [.take "block" sender piece offset bytes, .offer "block" "slots"]
      = ofWorkbench (b.offer sender piece offset bytes).2.2 := by
  have hadd := add?_of b ⟨sender, piece, offset, (b.pool.takeFilled bytes).1⟩
  let w := (ofWorkbench b).take "block" sender piece offset bytes
  show w.offer "block" "slots" = _
  cases haccept : b.accept? ⟨sender, piece, offset, (b.pool.takeFilled bytes).1⟩ with
  | none =>
      rw [haccept] at hadd
      simp only [Workbench.offer, haccept]
      exact offer_of_refused (w := w) rfl rfl hadd
  | some a =>
      rw [haccept] at hadd
      simp only [Workbench.offer, haccept]
      exact offer_of_accepted (w := w) rfl rfl hadd

theorem complete_ofWorkbench {b b' : Workbench} {piece : AssembledPiece}
    (h : b.complete? = some (piece, b')) :
    (ofWorkbench b).act (.complete "slots" "kept") = ofWorkbench b' := by
  obtain ⟨⟨_, a⟩, hcomplete, he⟩ := Option.map_eq_some_iff.mp h
  cases he
  have hof : (Receptacle.of b.owner b.assembler).complete? = some (piece, .of b.owner a) := by
    obtain ⟨pool, assembler, owner, kept⟩ := b
    cases owner with
    | none => simp only [Receptacle.of, Receptacle.complete?, hcomplete, Option.map_some]
    | some owner =>
      simp only [Receptacle.of, Receptacle.complete?, PieceBuffer.complete?, hcomplete,
        Option.map_some]
  refine (complete_of_complete? rfl hof).trans ?_
  obtain ⟨pool, assembler, owner, kept⟩ := b
  cases kept <;> rfl

theorem drop_ofWorkbench (b : Workbench) :
    (ofWorkbench b).act (.drop (.piece "kept")) = ofWorkbench b.dropPiece := by
  obtain ⟨pool, assembler, owner, kept⟩ := b
  cases kept <;> rfl

/-- What a workbench can come to. -/
inductive Stands (p : BufferPool) : Workbench → Prop
  | make (owner : Option Identifier) (piece length blockSize : Nat) :
      Stands p (.make p owner piece length blockSize)
  | offer {b : Workbench} (h : Stands p b) (sender : Identifier) (piece offset : Nat)
      (bytes : Bytes) : Stands p (b.offer sender piece offset bytes).2.2
  | complete {b b' : Workbench} {piece : AssembledPiece} (h : Stands p b)
      (hcomplete : b.complete? = some (piece, b')) : Stands p b'
  | drop {b : Workbench} (h : Stands p b) : Stands p b.dropPiece

theorem run_append (w : Workshop) (acts acts' : List Act) :
    w.run (acts ++ acts') = (w.run acts).run acts' := List.foldl_append

theorem Stands.exists_run {p : BufferPool} {b : Workbench} (h : Stands p b) :
    ∃ acts, (Workshop.make p).run acts = ofWorkbench b := by
  induction h with
  | make owner piece length blockSize =>
      exact ⟨[.setUp "slots" owner piece length blockSize],
        setUp_ofWorkbench p owner piece length blockSize⟩
  | offer h sender piece offset bytes ih =>
      obtain ⟨acts, hacts⟩ := ih
      refine ⟨acts ++ [.take "block" sender piece offset bytes, .offer "block" "slots"], ?_⟩
      rw [run_append, hacts, run_ofWorkbench]
  | complete h hcomplete ih =>
      obtain ⟨acts, hacts⟩ := ih
      refine ⟨acts ++ [.complete "slots" "kept"], ?_⟩
      rw [run_append, hacts]
      exact complete_ofWorkbench hcomplete
  | drop h ih =>
      obtain ⟨acts, hacts⟩ := ih
      refine ⟨acts ++ [.drop (.piece "kept")], ?_⟩
      rw [run_append, hacts]
      exact drop_ofWorkbench _

theorem Stands.outstanding {p : BufferPool} {b : Workbench} (h : Stands p b) :
    b.pool.outstanding = p.outstanding + (b.assembler.filled
      + ((b.kept.map fun piece => piece.blocks.length).getD 0)) := by
  obtain ⟨acts, hacts⟩ := h.exists_run
  have hcount := ((balanced_make p).run acts).outstanding
  rw [hacts] at hcount
  refine hcount.trans (congrArg (p.outstanding + ·) ?_)
  obtain ⟨pool, assembler, owner, kept⟩ := b
  have hassembler := Receptacle.assembler_of owner assembler
  cases kept <;> simp [held, ofWorkbench, Table.size, Table.empty, Table.values, hassembler]

/-! ### Every history -/

/-- Whatever is done, the buffers that are out are those of the blocks that were not offered yet, of
the filled slots and of the assembled pieces, and once everything is dropped none of them is. -/
theorem run_holds_what_is_live (p : BufferPool) (acts : List Act) :
    let w := (make p).run acts
    w.pool.outstanding = p.outstanding + (w.blocks.size
        + (w.receptacles.values.map fun r =>
          if r.assembler.completed then 0 else r.assembler.slots.countP Option.isSome).sum
        + (w.pieces.values.map fun piece => piece.blocks.length).sum)
      ∧ w.HandsOn
      ∧ ∀ order : List Thing, (∀ t, w.Has t → t ∈ order) →
        (∀ t, ¬ (w.run (order.map Act.drop)).Has t)
          ∧ (w.run (order.map Act.drop)).pool.outstanding = p.outstanding := by
  intro w
  have h : w.Balanced p.outstanding := (balanced_make p).run acts
  refine ⟨h.outstanding, h.handsOn, fun order hall => ?_⟩
  have hnothing : ∀ t, ¬ (w.run (order.map Act.drop)).Has t := by
    intro t ht
    obtain ⟨hhas, hkept⟩ := has_run_drops.mp ht
    exact hkept (hall t hhas)
  refine ⟨hnothing, ?_⟩
  rw [(h.run (order.map Act.drop)).outstanding, held_of_nothing hnothing, Nat.add_zero]

/-- A piece of two blocks, the first of which comes twice. -/
def twoBlocks : List Act :=
  [.setUp "slots" (some .zero) 0 8 4, .take "first" .zero 0 0 [1, 2, 3, 4],
    .take "again" .zero 0 0 [5, 6, 7, 8], .take "second" .zero 0 4 [9, 10, 11, 12],
    .offer "first" "slots", .offer "again" "slots", .offer "second" "slots",
    .complete "slots" "piece"]

/-- The block that came twice is back, the others are in the piece, and they go back with it and not
with the assembler. -/
theorem run_holds_what_is_live_twoBlocks :
    ((make (.make 4 8)).run twoBlocks).pool.outstanding = 2
      ∧ ((make (.make 4 8)).run (twoBlocks.take 5)).pool.outstanding = 3
      ∧ ((make (.make 4 8)).run (twoBlocks.take 6)).pool.outstanding = 2
      ∧ (((make (.make 4 8)).run twoBlocks).drop (.receptacle "slots")).pool.outstanding = 2
      ∧ (((make (.make 4 8)).run twoBlocks).run
        ([.piece "piece", .receptacle "slots"].map Act.drop)).pool.outstanding = 0 := by
  obtain ⟨hcount, hmoves, hdrops⟩ := run_holds_what_is_live (.make 4 8) twoBlocks
  obtain ⟨hcount', hmoves', -⟩ := run_holds_what_is_live (.make 4 8) (twoBlocks.take 5)
  have hrefused := (hmoves'.refused "again" "slots" rfl rfl rfl).2
  refine ⟨hcount.trans rfl, hcount'.trans rfl, Nat.succ.inj (hrefused.trans (hcount'.trans rfl)),
    ?_, ?_⟩
  · rw [hmoves.emptied "slots" rfl rfl]
    exact hcount.trans rfl
  · refine (hdrops _ fun t ht => ?_).2
    cases t with
    | block name => exact absurd (show name ∈ ([] : List String) from ht) List.not_mem_nil
    | receptacle name =>
        have hname : name ∈ ["slots"] := ht
        rw [List.mem_singleton.mp hname]
        exact .tail _ (.head _)
    | piece name =>
        have hname : name ∈ ["piece"] := ht
        rw [List.mem_singleton.mp hname]
        exact .head _

end Workshop

end TorrentCore
