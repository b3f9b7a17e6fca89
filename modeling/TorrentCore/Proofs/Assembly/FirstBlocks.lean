import TorrentCore.Proofs.Assembly.Validity

/-!
# The first block for each slot

A buffer may be offered anything by anyone, change its owner at any time, and be asked for its piece
again and again. What it holds is told by the blocks that it took: every slot keeps the first block
that came for it, and the piece is handed over once, the first time it is asked for after each slot
had its block. An order in which blocks were taken leaves no trace in the piece.
-/

namespace TorrentCore

namespace Block

variable {length blockSize offset : Nat} {blocks blocks' : List Block}

/-- What the first block that begins at an offset brings. -/
def firstAt (blocks : List Block) (offset : Nat) : Option Buffer :=
  (blocks.find? fun b => b.offset == offset).map Block.data

/-- What the slots of a piece hold if each keeps the first block that came for it. -/
def firsts (length blockSize : Nat) (blocks : List Block) : List (Option Buffer) :=
  (List.range (Geometry.cutCount length blockSize)).map fun slot =>
    firstAt blocks (slot * blockSize)

def Cover (length blockSize : Nat) (blocks : List Block) : Prop :=
  ∀ slot, slot * blockSize < length → ∃ b ∈ blocks, b.offset = slot * blockSize

theorem firstAt_eq_none_iff : firstAt blocks offset = none ↔ ∀ b ∈ blocks, b.offset ≠ offset := by
  simp [firstAt]

theorem isSome_firstAt_iff :
    (firstAt blocks offset).isSome = true ↔ ∃ b ∈ blocks, b.offset = offset := by
  simp [firstAt]

theorem firstAt_concat (b : Block) : firstAt (blocks ++ [b]) offset
    = (firstAt blocks offset).or (if b.offset = offset then some b.data else none) := by
  rw [firstAt, firstAt, List.find?_append]
  cases blocks.find? fun b => b.offset == offset with
  | some first => rfl
  | none =>
      by_cases hoffset : b.offset = offset
      · simp [hoffset]
      · simp [hoffset]

theorem firstAt_eq_some_iff (hnodup : (blocks.map Block.offset).Nodup) {data : Buffer} :
    firstAt blocks offset = some data ↔ ∃ b ∈ blocks, b.offset = offset ∧ b.data = data := by
  constructor
  · intro hfirst
    obtain ⟨b, hfind, hdata⟩ := Option.map_eq_some_iff.mp hfirst
    exact ⟨b, List.mem_of_find?_eq_some hfind, by simpa using List.find?_some hfind, hdata⟩
  · rintro ⟨b, hb, rfl, rfl⟩
    obtain ⟨first, hfirst⟩ := Option.isSome_iff_exists.mp (isSome_firstAt_iff.mpr ⟨b, hb, rfl⟩)
    obtain ⟨b', hfind, rfl⟩ := Option.map_eq_some_iff.mp hfirst
    have hoffset : b'.offset = b.offset := by simpa using List.find?_some hfind
    rw [hfirst, List.inj_on_of_nodup_map hnodup (List.mem_of_find?_eq_some hfind) hb hoffset]

theorem firsts_perm (hperm : blocks.Perm blocks') (hnodup : (blocks.map Block.offset).Nodup) :
    firsts length blockSize blocks = firsts length blockSize blocks' := by
  have hnodup' := (hperm.map Block.offset).nodup_iff.mp hnodup
  refine List.map_congr_left fun slot _ => Option.ext fun data => ?_
  rw [firstAt_eq_some_iff hnodup, firstAt_eq_some_iff hnodup']
  simp only [hperm.mem_iff]

theorem length_firsts :
    (firsts length blockSize blocks).length = Geometry.cutCount length blockSize := by
  rw [firsts, List.length_map, List.length_range]

theorem getElem?_firsts {slot : Nat} (hslot : slot < Geometry.cutCount length blockSize) :
    (firsts length blockSize blocks)[slot]? = some (firstAt blocks (slot * blockSize)) := by
  rw [firsts, List.getElem?_map, List.getElem?_range hslot, Option.map_some]

theorem Fits.getElem?_firsts {piece : Nat} {b : Block} (hpos : 0 < blockSize)
    (h : b.Fits piece length blockSize) :
    (firsts length blockSize blocks)[b.offset / blockSize]? = some (firstAt blocks b.offset) := by
  rw [Block.getElem?_firsts (h.slot_lt hpos), Nat.div_mul_cancel h.aligned]

theorem firsts_nil : firsts length blockSize []
    = List.replicate (Geometry.cutCount length blockSize) none := by
  rw [firsts, ← List.length_range (n := Geometry.cutCount length blockSize), ← List.map_const]
  simp [firstAt]

theorem firsts_concat (hpos : 0 < blockSize) {b : Block} (haligned : blockSize ∣ b.offset)
    (hnew : firstAt blocks b.offset = none) : firsts length blockSize (blocks ++ [b])
      = (firsts length blockSize blocks).set (b.offset / blockSize) (some b.data) := by
  apply List.ext_getElem?
  intro slot
  by_cases hslot : slot < Geometry.cutCount length blockSize
  · rw [getElem?_firsts hslot, List.getElem?_set, length_firsts, getElem?_firsts hslot,
      firstAt_concat]
    by_cases hsame : b.offset / blockSize = slot
    · have hoffset : b.offset = slot * blockSize := by
        rw [← hsame, Nat.div_mul_cancel haligned]
      rw [if_pos hoffset, ← hoffset, hnew, Option.none_or, if_pos hsame, hsame, if_pos hslot]
    · have hoffset : b.offset ≠ slot * blockSize := by
        intro he
        rw [he, Nat.mul_div_cancel slot hpos] at hsame
        exact hsame rfl
      rw [if_neg hsame, if_neg hoffset, Option.or_none]
  · rw [List.getElem?_eq_none (by rw [length_firsts]; omega),
      List.getElem?_eq_none (by rw [List.length_set, length_firsts]; omega)]

theorem forall_isSome_firsts_iff (hpos : 0 < blockSize) :
    (∀ held ∈ firsts length blockSize blocks, held.isSome = true)
      ↔ Cover length blockSize blocks := by
  simp only [firsts, List.forall_mem_map, List.mem_range, Geometry.lt_cutCount_iff hpos,
    isSome_firstAt_iff]
  rfl

end Block

def AssembledPiece.ofFirsts (piece length blockSize : Nat) (blocks : List Block) :
    AssembledPiece :=
  ⟨piece, length, (Block.firsts length blockSize blocks).filterMap id⟩

namespace Assembler

/-- An assembler that took these blocks and handed these pieces over. -/
structure Holds (piece length blockSize : Nat) (taken : List Block)
    (handedOver : List AssembledPiece) (a : Assembler) : Prop where
  blockSize_pos : 0 < blockSize
  blockSize_eq : a.blockSize = blockSize
  fits : ∀ b ∈ taken, b.Fits piece length blockSize
  nodup : (taken.map Block.offset).Nodup
  filling : handedOver = [] → a.Filling piece length
  slots_eq : handedOver = [] → a.slots = Block.firsts length blockSize taken
  completed : handedOver ≠ [] → a.completed = true
  once : handedOver.length ≤ 1
  whole : ∀ p ∈ handedOver, p = .ofFirsts piece length blockSize taken
    ∧ Block.Cover length blockSize taken ∧ p.Whole
    ∧ p.blocks.map some = Block.firsts length blockSize taken

variable {piece length blockSize : Nat} {taken : List Block} {handedOver : List AssembledPiece}
  {a a' : Assembler} {b : Block}

theorem holds_make : (make piece length blockSize).Holds piece length (max blockSize 1) [] [] where
  blockSize_pos := Nat.le_max_right blockSize 1
  blockSize_eq := rfl
  fits := by simp
  nodup := by simp
  filling _ := filling_make piece length blockSize
  slots_eq _ := Block.firsts_nil.symm
  completed h := absurd rfl h
  once := by simp
  whole := by simp

theorem Holds.filling_of_open (h : a.Holds piece length blockSize taken handedOver)
    (hopen : a.completed = false) : a.Filling piece length := by
  refine h.filling (by_contra fun hgiven => ?_)
  rw [h.completed hgiven] at hopen
  cases hopen

/-- A block is taken if it fits, none was taken for its slot, and nothing was handed over. -/
theorem Holds.isSome_add?_iff (h : a.Holds piece length blockSize taken handedOver) :
    (a.add? b).isSome = true ↔ b.Fits piece length blockSize
      ∧ (∀ b' ∈ taken, b'.offset ≠ b.offset) ∧ handedOver = [] := by
  rw [Assembler.isSome_add?_iff]
  by_cases hopen : handedOver = []
  · have hfilling := h.filling hopen
    rw [accepts_iff_fits hfilling.blockSize_pos hfilling.length_slots, hfilling.piece_eq,
      hfilling.length_eq, h.blockSize_eq, h.slots_eq hopen, ← Block.firstAt_eq_none_iff]
    constructor
    · rintro ⟨-, hfits, hempty⟩
      rw [hfits.getElem?_firsts h.blockSize_pos, Option.some.injEq] at hempty
      exact ⟨hfits, hempty, hopen⟩
    · rintro ⟨hfits, hempty, -⟩
      refine ⟨hfilling.not_completed, hfits, ?_⟩
      rw [hfits.getElem?_firsts h.blockSize_pos, hempty]
  · constructor
    · intro haccepts
      have hnot := (accepts_iff.mp haccepts).1
      rw [h.completed hopen] at hnot
      cases hnot
    · rintro ⟨-, -, hnone⟩
      exact absurd hnone hopen

theorem Holds.add (h : a.Holds piece length blockSize taken handedOver)
    (hadd : a.add? b = some a') : a'.Holds piece length blockSize (taken ++ [b]) handedOver := by
  obtain ⟨hfits, hnew, rfl⟩ := h.isSome_add?_iff.mp (by rw [hadd]; rfl)
  have hfilling := (h.filling rfl).add hadd
  obtain ⟨-, rfl⟩ := add?_eq_some_iff.mp hadd
  refine ⟨h.blockSize_pos, h.blockSize_eq, ?_, ?_, fun _ => hfilling, fun _ => ?_, h.completed,
    h.once, ?_⟩
  · intro b' hb'
    rw [List.mem_append, List.mem_singleton] at hb'
    rcases hb' with hb' | rfl
    · exact h.fits b' hb'
    · exact hfits
  · rw [List.map_append, List.map_singleton, List.nodup_append]
    refine ⟨h.nodup, List.nodup_singleton _, ?_⟩
    simpa using hnew
  · rw [Block.firsts_concat h.blockSize_pos hfits.aligned (Block.firstAt_eq_none_iff.mpr hnew),
      ← h.slots_eq rfl, ← h.blockSize_eq]
  · simp

theorem Holds.isComplete_iff (h : a.Holds piece length blockSize taken handedOver) :
    a.isComplete = true ↔ handedOver = [] ∧ Block.Cover length blockSize taken := by
  rw [Assembler.isComplete_iff]
  by_cases hopen : handedOver = []
  · have hfilling := h.filling hopen
    rw [hfilling.received_eq, h.slots_eq hopen, List.countP_eq_length,
      Block.forall_isSome_firsts_iff h.blockSize_pos]
    simp [hfilling.not_completed, hopen]
  · simp [h.completed hopen, hopen]

theorem Holds.complete?_eq_some_iff (h : a.Holds piece length blockSize taken handedOver)
    {whole : AssembledPiece} :
    (∃ a', a.complete? = some (whole, a')) ↔ handedOver = []
      ∧ Block.Cover length blockSize taken ∧ whole = .ofFirsts piece length blockSize taken := by
  have hpiece : handedOver = [] → (⟨a.piece, a.length, a.held⟩ : AssembledPiece)
      = .ofFirsts piece length blockSize taken := by
    intro hopen
    have hfilling := h.filling hopen
    rw [hfilling.piece_eq, hfilling.length_eq, held, h.slots_eq hopen, AssembledPiece.ofFirsts]
  constructor
  · rintro ⟨a', hcomplete⟩
    obtain ⟨hdone, -, rfl, -⟩ := Assembler.complete?_eq_some_iff.mp hcomplete
    obtain ⟨hopen, hcover⟩ := h.isComplete_iff.mp hdone
    exact ⟨hopen, hcover, hpiece hopen⟩
  · rintro ⟨hopen, hcover, rfl⟩
    have hdone := h.isComplete_iff.mpr ⟨hopen, hcover⟩
    exact ⟨_, Assembler.complete?_eq_some_iff.mpr
      ⟨hdone, (h.filling hopen).slots_eq hdone, (hpiece hopen).symm, rfl⟩⟩

theorem Holds.complete (h : a.Holds piece length blockSize taken handedOver)
    {whole : AssembledPiece} (hcomplete : a.complete? = some (whole, a')) :
    a'.Holds piece length blockSize taken (handedOver ++ [whole]) := by
  obtain ⟨rfl, hcover, hfirsts⟩ := h.complete?_eq_some_iff.mp ⟨a', hcomplete⟩
  have hfilling := h.filling rfl
  have hwhole := (hfilling.complete hcomplete).2.2
  obtain ⟨-, hslots, rfl, rfl⟩ := Assembler.complete?_eq_some_iff.mp hcomplete
  refine ⟨h.blockSize_pos, h.blockSize_eq, h.fits, h.nodup, by simp, by simp, fun _ => rfl,
    by simp, ?_⟩
  intro p hp
  rw [List.nil_append, List.mem_singleton] at hp
  subst hp
  exact ⟨hfirsts, hcover, hwhole, hslots.symm.trans (h.slots_eq rfl)⟩

end Assembler

namespace PieceBuffer

inductive Act where
  | offer (b : Block)
  | entrust (owner : Identifier)
  | complete

inductive Reply where
  | taken (accepted : Bool)
  | entrusted
  | piece (whole : Option AssembledPiece)
deriving DecidableEq

def act (p : PieceBuffer) : Act → Reply × PieceBuffer
  | .offer b =>
    match p.add? b with
    | some p' => (.taken true, p')
    | none => (.taken false, p)
  | .entrust owner => (.entrusted, { p with owner := owner })
  | .complete => (.piece p.complete.1, p.complete.2)

variable {p p' : PieceBuffer} {b : Block} {whole : AssembledPiece}

theorem isSome_add?_iff :
    (p.add? b).isSome = true ↔ b.sender = p.owner ∧ (p.assembler.add? b).isSome = true := by
  unfold add?
  split
  · next hother => simp [hother]
  · next hsender => simp [not_not.mp hsender]

theorem owner_of_add? (h : p.add? b = some p') : p'.owner = p.owner := by
  unfold add? at h
  split at h
  · cases h
  · obtain ⟨a, _, rfl⟩ := Option.map_eq_some_iff.mp h
    rfl

theorem owner_of_complete? (h : p.complete? = some (whole, p')) : p'.owner = p.owner := by
  obtain ⟨_, _, he⟩ := Option.map_eq_some_iff.mp h
  cases he
  rfl

inductive Step (p : PieceBuffer) : Act → Reply → PieceBuffer → Prop
  | refuse {b : Block} (hadd : p.add? b = none) : Step p (.offer b) (.taken false) p
  | take {b : Block} {p' : PieceBuffer} (hadd : p.add? b = some p') :
      Step p (.offer b) (.taken true) p'
  | entrust {owner : Identifier} : Step p (.entrust owner) .entrusted { p with owner := owner }
  | wait {p' : PieceBuffer} (hcomplete : p.complete = (none, p')) : Step p .complete (.piece none) p'
  | handOver {whole : AssembledPiece} {p' : PieceBuffer}
      (hcomplete : p.complete? = some (whole, p')) : Step p .complete (.piece (some whole)) p'

theorem step_act (p : PieceBuffer) (a : Act) : p.Step a (p.act a).1 (p.act a).2 := by
  cases a with
  | offer b =>
      rw [act]
      split
      · next hadd => exact .take hadd
      · next hadd => exact .refuse hadd
  | entrust owner => exact .entrust
  | complete =>
      rw [act]
      cases hpiece : p.complete.1 with
      | none => exact .wait (Prod.ext hpiece rfl)
      | some whole => exact .handOver (complete?_of_complete hpiece)

theorem act_offer_eq_taken_iff :
    (p.act (.offer b)).1 = .taken true ↔ (p.add? b).isSome = true := by
  rw [act]
  cases p.add? b with
  | none => simp
  | some p' => simp

theorem act_complete_eq_piece_iff : (p.act .complete).1 = .piece (some whole)
    ↔ ∃ a, p.assembler.complete? = some (whole, a) := by
  simp [act, complete, Assembler.complete?]

theorem wait_eq {piece length blockSize : Nat} {taken : List Block}
    {handedOver : List AssembledPiece}
    (h : p.assembler.Holds piece length blockSize taken handedOver)
    (hcomplete : p.complete = (none, p')) : p' = p ∧ p.assembler.isComplete = false := by
  obtain ⟨hnot, hsame⟩ := Assembler.complete_eq_of_none h.filling_of_open
    (congrArg Prod.fst hcomplete)
  have hrest : p.complete.2 = p' := congrArg Prod.snd hcomplete
  refine ⟨?_, hnot⟩
  rw [← hrest, complete, hsame]

/-- A buffer, with all that was asked of it and what came of it. -/
structure Log where
  entries : List (Act × Reply)
  buffer : PieceBuffer

namespace Log

def act (l : Log) (a : Act) : Log :=
  ⟨l.entries ++ [(a, (l.buffer.act a).1)], (l.buffer.act a).2⟩

def run (first : Identifier) (piece length blockSize : Nat) (acts : List Act) : Log :=
  acts.foldl act ⟨[], make first piece length blockSize⟩

/-- The blocks that were taken, in this order. -/
def taken (l : Log) : List Block :=
  l.entries.filterMap fun
    | (.offer b, .taken true) => some b
    | _ => none

/-- The pieces that were handed over. -/
def handedOver (l : Log) : List AssembledPiece :=
  l.entries.filterMap fun
    | (.complete, .piece whole) => whole
    | _ => none

def owner (first : Identifier) (l : Log) : Identifier :=
  (l.entries.filterMap fun
    | (.entrust owner, _) => some owner
    | _ => none).getLastD first

structure Kept (first : Identifier) (piece length blockSize : Nat) (l : Log) : Prop where
  owner_eq : l.buffer.owner = l.owner first
  holds : l.buffer.assembler.Holds piece length blockSize l.taken l.handedOver

variable {first : Identifier} {piece length blockSize : Nat} {l : Log}

theorem Kept.step (h : l.Kept first piece length blockSize) {a : Act} {reply : Reply}
    {p : PieceBuffer} (hstep : l.buffer.Step a reply p) :
    Kept first piece length blockSize ⟨l.entries ++ [(a, reply)], p⟩ := by
  cases hstep with
  | refuse _ =>
      refine ⟨?_, ?_⟩
      · simpa [owner] using h.owner_eq
      · simpa [taken, handedOver] using h.holds
  | take hadd =>
      have howner := (owner_of_add? hadd).trans h.owner_eq
      have hholds := h.holds.add (add?_eq_some hadd)
      refine ⟨?_, ?_⟩
      · simpa [owner] using howner
      · simpa [taken, handedOver] using hholds
  | entrust =>
      refine ⟨?_, ?_⟩
      · simp [owner]
      · simpa [taken, handedOver] using h.holds
  | wait hcomplete =>
      obtain ⟨rfl, -⟩ := wait_eq h.holds hcomplete
      refine ⟨?_, ?_⟩
      · simpa [owner] using h.owner_eq
      · simpa [taken, handedOver] using h.holds
  | handOver hcomplete =>
      have howner := (owner_of_complete? hcomplete).trans h.owner_eq
      have hholds := h.holds.complete (complete?_eq_some hcomplete)
      refine ⟨?_, ?_⟩
      · simpa [owner] using howner
      · simpa [taken, handedOver] using hholds

/-- A piece is there after a step if it was before, or was asked for with a block for each slot. -/
theorem Kept.handedOver_step_iff (h : l.Kept first piece length blockSize) {a : Act} {reply : Reply}
    {p : PieceBuffer} (hstep : l.buffer.Step a reply p) :
    handedOver ⟨l.entries ++ [(a, reply)], p⟩ ≠ []
      ↔ l.handedOver ≠ [] ∨ a = .complete ∧ Block.Cover length blockSize l.taken := by
  cases hstep with
  | refuse _ => simp [handedOver]
  | take _ => simp [handedOver]
  | entrust => simp [handedOver]
  | wait hcomplete =>
      obtain ⟨rfl, hnot⟩ := wait_eq h.holds hcomplete
      have hsame : handedOver ⟨l.entries ++ [(.complete, .piece none)], l.buffer⟩
          = l.handedOver := by
        simp [handedOver]
      rw [hsame]
      constructor
      · exact Or.inl
      · rintro (hgiven | ⟨-, hcover⟩) hopen
        · exact hgiven hopen
        · cases hnot.symm.trans (h.holds.isComplete_iff.mpr ⟨hopen, hcover⟩)
  | handOver hcomplete =>
      obtain ⟨-, hcover, -⟩ := h.holds.complete?_eq_some_iff.mp ⟨_, complete?_eq_some hcomplete⟩
      simp [handedOver, hcover]

theorem run_concat (acts : List Act) (a : Act) :
    run first piece length blockSize (acts ++ [a])
      = (run first piece length blockSize acts).act a := by
  rw [run, List.foldl_append]
  rfl

theorem kept_run (acts : List Act) :
    (run first piece length blockSize acts).Kept first piece length (max blockSize 1) := by
  induction acts using List.reverseRecOn with
  | nil => exact ⟨rfl, Assembler.holds_make⟩
  | append_singleton acts a ih =>
      rw [run_concat]
      exact ih.step (step_act _ a)

/-- A piece is there from the first time on that it was asked for with a block for each slot. -/
theorem handedOver_run_iff (acts : List Act) :
    (run first piece length blockSize acts).handedOver ≠ []
      ↔ ∃ before after, acts = before ++ .complete :: after
        ∧ Block.Cover length (max blockSize 1) (run first piece length blockSize before).taken := by
  induction acts using List.reverseRecOn with
  | nil => simp [run, handedOver]
  | append_singleton acts a ih =>
      rw [run_concat, act, (kept_run acts).handedOver_step_iff (step_act _ a), ih]
      constructor
      · rintro (⟨before, after, rfl, hcover⟩ | ⟨rfl, hcover⟩)
        · exact ⟨before, after ++ [a], by simp, hcover⟩
        · exact ⟨acts, [], rfl, hcover⟩
      · rintro ⟨before, after, hacts, hcover⟩
        rcases List.eq_nil_or_concat after with rfl | ⟨after, last, rfl⟩
        · obtain ⟨rfl, hlast⟩ := List.append_inj' hacts rfl
          exact .inr ⟨List.singleton_inj.mp hlast, hcover⟩
        · rw [List.concat_eq_append, ← List.cons_append, ← List.append_assoc] at hacts
          exact .inl ⟨before, after, (List.append_inj' hacts rfl).1, hcover⟩

/-- All that a buffer tells follows from the blocks that it took. -/
structure FirstCome (first : Identifier) (piece length blockSize : Nat) (l : Log) : Prop where
  taken_iff : ∀ b, (l.buffer.act (.offer b)).1 = .taken true ↔ b.sender = l.owner first
    ∧ b.Fits piece length blockSize ∧ (∀ b' ∈ l.taken, b'.offset ≠ b.offset) ∧ l.handedOver = []
  refused : ∀ b, (l.buffer.act (.offer b)).1 ≠ .taken true →
    l.buffer.act (.offer b) = (.taken false, l.buffer)
  slots_eq : l.handedOver = [] →
    l.buffer.assembler.slots = Block.firsts length blockSize l.taken
  received_eq : l.handedOver = [] →
    l.buffer.assembler.received = (Block.firsts length blockSize l.taken).countP Option.isSome
  isComplete_iff : l.buffer.isComplete = true
    ↔ l.handedOver = [] ∧ Block.Cover length blockSize l.taken
  handsOver_iff : ∀ whole, (l.buffer.act .complete).1 = .piece (some whole)
    ↔ l.handedOver = [] ∧ Block.Cover length blockSize l.taken
      ∧ whole = .ofFirsts piece length blockSize l.taken
  once : l.handedOver.length ≤ 1
  whole : ∀ whole ∈ l.handedOver, whole = .ofFirsts piece length blockSize l.taken
    ∧ whole.bytes.length = length
    ∧ whole.blocks.map some = Block.firsts length blockSize l.taken

theorem Kept.firstCome (h : l.Kept first piece length blockSize) :
    l.FirstCome first piece length blockSize where
  taken_iff b := by
    rw [act_offer_eq_taken_iff, isSome_add?_iff, h.owner_eq, h.holds.isSome_add?_iff]
  refused b hrefused := by
    rw [Ne, act_offer_eq_taken_iff, Bool.not_eq_true, Option.isSome_eq_false_iff,
      Option.isNone_iff_eq_none] at hrefused
    simp only [PieceBuffer.act, hrefused]
  slots_eq := h.holds.slots_eq
  received_eq hopen := by
    rw [← h.holds.slots_eq hopen]
    exact (h.holds.filling hopen).received_eq
  isComplete_iff := h.holds.isComplete_iff
  handsOver_iff whole := act_complete_eq_piece_iff.trans h.holds.complete?_eq_some_iff
  once := h.holds.once
  whole whole hwhole := by
    obtain ⟨hfirsts, hcover, hlength, hblocks⟩ := h.holds.whole whole hwhole
    refine ⟨hfirsts, ?_, hblocks⟩
    rw [hlength, hfirsts]
    rfl

/-- Whatever is asked of a buffer, in whatever order: every slot keeps the first block that fits
it, and the piece is handed over once. It comes from the blocks that were taken, not from their
order. -/
theorem first_block_for_each_slot (piece length blockSize : Nat) :
    (∀ first acts, (run first piece length blockSize acts).FirstCome first piece length
      (max blockSize 1))
    ∧ (∀ first acts, (run first piece length blockSize acts).handedOver ≠ []
      ↔ ∃ before after, acts = before ++ .complete :: after
        ∧ Block.Cover length (max blockSize 1) (run first piece length blockSize before).taken)
    ∧ ∀ first first' acts acts', (run first piece length blockSize acts).taken.Perm
        (run first' piece length blockSize acts').taken →
      ∀ whole ∈ (run first piece length blockSize acts).handedOver,
      ∀ whole' ∈ (run first' piece length blockSize acts').handedOver, whole = whole' := by
  refine ⟨fun first acts => (kept_run acts).firstCome,
    fun first acts => handedOver_run_iff acts, ?_⟩
  intro first first' acts acts' hperm whole hwhole whole' hwhole'
  obtain ⟨hfirsts, -⟩ := (kept_run acts).holds.whole whole hwhole
  obtain ⟨hfirsts', -⟩ := (kept_run acts').holds.whole whole' hwhole'
  rw [hfirsts, hfirsts', AssembledPiece.ofFirsts, AssembledPiece.ofFirsts,
    Block.firsts_perm hperm (kept_run acts).holds.nodup]

def heir : Identifier := ⟨List.replicate 20 1, rfl⟩

def leading : Block := ⟨.zero, 0, 0, ⟨3, [1, 2, 3]⟩⟩

def middle : Block := ⟨heir, 0, 3, ⟨3, [4, 5, 6]⟩⟩

def trailing : Block := ⟨heir, 0, 6, ⟨2, [7, 8]⟩⟩

/-- The last block comes before its sender is the owner, the first one comes twice, and the piece is
asked for too early and once too often. -/
def hurried : List Act :=
  [.offer leading, .offer trailing, .complete, .entrust heir, .offer leading, .offer trailing,
    .offer middle, .complete, .complete]

def backward : List Act :=
  [.entrust heir, .offer trailing, .offer middle, .entrust .zero, .offer leading, .complete]

/-- Three blocks of two owners, in two orders. -/
theorem first_block_for_each_slot_twoOwners :
    (run .zero 0 8 3 hurried).taken = [leading, trailing, middle]
      ∧ (run .zero 0 8 3 backward).taken = [trailing, middle, leading]
      ∧ (∃ whole whole', (run .zero 0 8 3 hurried).handedOver = [whole]
        ∧ (run .zero 0 8 3 backward).handedOver = [whole'] ∧ whole = whole'
        ∧ whole.bytes = [1, 2, 3, 4, 5, 6, 7, 8])
      ∧ ((run .zero 0 8 3 (hurried.take 1)).buffer.act (.offer trailing)).1 ≠ .taken true := by
  obtain ⟨hfirst, -, horder⟩ := first_block_for_each_slot 0 8 3
  have hhurried : (run .zero 0 8 3 hurried).taken = [leading, trailing, middle] := rfl
  have hbackward : (run .zero 0 8 3 backward).taken = [trailing, middle, leading] := rfl
  have hperm : (run .zero 0 8 3 hurried).taken.Perm (run .zero 0 8 3 backward).taken := by
    rw [hhurried, hbackward]
    exact (List.perm_append_singleton leading [trailing, middle]).symm
  have hsame := horder .zero .zero hurried backward hperm _ List.mem_cons_self _ List.mem_cons_self
  refine ⟨hhurried, hbackward, ⟨_, _, rfl, rfl, hsame, rfl⟩, ?_⟩
  rw [Ne, (hfirst .zero (hurried.take 1)).taken_iff]
  rintro ⟨hsender, -⟩
  revert hsender
  decide

end Log

end PieceBuffer

end TorrentCore
