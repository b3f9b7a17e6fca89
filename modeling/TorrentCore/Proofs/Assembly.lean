import Mathlib.Algebra.GroupWithZero.Nat
import Mathlib.Data.List.Forall2
import TorrentCore.Assembly

/-!
# What an assembler hands over

While an assembler is filled every slot is empty or holds a block of that slot's length. So when
the last one is filled, the blocks joined together are exactly as long as the piece. Copying a
range of an assembled piece, and taking its digest, is the same as doing that with the joined
bytes.
-/

namespace TorrentCore

/-! ### Digests of parts -/

theorem Sha1.ofParts_eq_digest_flatten (parts : List Bytes) :
    Sha1.ofParts parts = Sha1.digest parts.flatten := by
  cases parts with
  | nil =>
      have habsorb : Sha1.absorb Sha1.Chain.initial [] = (Sha1.Chain.initial, []) := by
        rw [Sha1.absorb, if_neg (by decide)]
      rw [ofParts, digest, Hasher.update, List.flatten_nil, Hasher.new, List.append_nil, habsorb]
      rfl
  | cons part parts => exact Sha1.ofParts_eq_digest part parts

namespace AssembledPiece

theorem verify_eq_true_iff (p : AssembledPiece) (expected : Identifier) :
    p.verify expected = true ↔ Sha1.digest p.bytes = expected.bytes := by
  rw [verify, beq_iff_eq, Sha1.ofParts_eq_digest_flatten]
  rfl

theorem gather_eq (blocks : List Buffer) (skip room : Nat) :
    gather blocks skip room = ((blocks.map Buffer.bytes).flatten.drop skip).take room := by
  induction blocks generalizing skip room with
  | nil => simp only [gather, List.map_nil, List.flatten_nil, List.drop_nil, List.take_nil]
  | cons b rest ih =>
      rw [gather, List.map_cons, List.flatten_cons, List.drop_append]
      by_cases hroom : room = 0
      · rw [if_pos hroom, hroom, List.take_zero]
      · rw [if_neg hroom]
        by_cases hskip : b.bytes.length ≤ skip
        · rw [if_pos hskip, ih, List.drop_of_length_le hskip, List.nil_append]
        · rw [if_neg hskip, show skip - b.bytes.length = 0 by omega, List.drop_zero,
            List.take_append]
          simp only [ih, List.drop_zero, List.length_take]
          congr 2
          omega

/-- The blocks joined together are as long as the piece. -/
def Whole (p : AssembledPiece) : Prop := p.bytes.length = p.length

theorem Whole.writeRange {p : AssembledPiece} (h : p.Whole) {out : Bytes}
    (hout : out.length = p.length) : p.writeRange 0 out = (p.length, p.bytes) := by
  have hcopied : gather p.blocks 0 out.length = p.bytes := by
    rw [gather_eq, List.drop_zero, hout, ← h]
    exact List.take_length
  rw [AssembledPiece.writeRange, hcopied, h, ← hout, List.drop_length, List.append_nil]

end AssembledPiece

namespace Assembler

/-- Some slots of a piece are filled, each with a block that fits. -/
structure Filling (piece length : Nat) (a : Assembler) : Prop where
  piece_eq : a.piece = piece
  length_eq : a.length = length
  blockSize_pos : 0 < a.blockSize
  length_slots : a.slots.length = (a.length + a.blockSize - 1) / a.blockSize
  length_block : ∀ slot buffer, a.slots[slot]? = some (some buffer) →
    buffer.bytes.length = a.slotLength slot
  received_eq : a.received = a.slots.countP Option.isSome
  not_completed : a.completed = false

theorem filling_make (piece length blockSize : Nat) :
    (make piece length blockSize).Filling piece length where
  piece_eq := rfl
  length_eq := rfl
  blockSize_pos := Nat.le_max_right blockSize 1
  length_slots := List.length_replicate
  length_block := by
    intro slot buffer h
    have hmem := List.mem_of_getElem? h
    cases List.eq_of_mem_replicate hmem
  received_eq := by
    show 0 = List.countP _ (List.replicate _ none)
    rw [List.countP_replicate]
    rfl
  not_completed := rfl

theorem accepts_iff {a : Assembler} {b : Block} :
    a.accepts b = true ↔ a.completed = false ∧ b.piece = a.piece ∧ b.offset % a.blockSize = 0
      ∧ b.offset / a.blockSize < a.slots.length
      ∧ b.data.bytes.length = a.slotLength (b.offset / a.blockSize)
      ∧ a.slots[b.offset / a.blockSize]? = some none := by
  simp only [accepts, Bool.and_eq_true, Bool.not_eq_true', beq_iff_eq, decide_eq_true_eq,
    Option.isNone_iff_eq_none, and_assoc]
  refine and_congr_right fun _ => and_congr_right fun _ => and_congr_right fun _ =>
    and_congr_right fun hslot => and_congr_right fun _ => ?_
  rw [List.getD_eq_getElem?_getD, List.getElem?_eq_getElem hslot, Option.getD_some,
    Option.some.injEq]

theorem add?_eq_some_iff {a a' : Assembler} {b : Block} :
    a.add? b = some a' ↔ a.accepts b = true ∧ a' = { a with
      slots := a.slots.set (b.offset / a.blockSize) (some b.data)
      received := a.received + 1 } := by
  unfold add?
  split
  · next haccepts => simp [haccepts, eq_comm]
  · next hrefused => simp [hrefused]

theorem isSome_add?_iff {a : Assembler} {b : Block} :
    (a.add? b).isSome = true ↔ a.accepts b = true := by
  unfold add?
  split
  · next haccepts => simp [haccepts]
  · next hrefused => simp [hrefused]

theorem isComplete_iff {a : Assembler} :
    a.isComplete = true ↔ a.completed = false ∧ a.received = a.slots.length := by
  rw [isComplete, Bool.and_eq_true, Bool.not_eq_true', beq_iff_eq, expected]

theorem mapM_id_eq_some_iff {α : Type} {slots : List (Option α)} {blocks : List α} :
    slots.mapM id = some blocks ↔ slots = blocks.map some := by
  induction slots generalizing blocks with
  | nil => cases blocks <;> simp
  | cons slot slots ih =>
      cases slot with
      | none => cases blocks <;> simp [List.mapM_cons]
      | some block => cases blocks <;> simp [List.mapM_cons, Option.bind_eq_some_iff, ih, and_comm]

theorem complete?_eq_some_iff {a a' : Assembler} {p : AssembledPiece} :
    a.complete? = some (p, a') ↔ a.isComplete = true ∧ a.slots = a.held.map some
      ∧ p = ⟨a.piece, a.length, a.held⟩ ∧ a' = { a with slots := [], completed := true } := by
  have hheld : ∀ {blocks : List Buffer}, a.slots = blocks.map some → a.held = blocks := by
    intro blocks hslots
    rw [held, hslots, List.filterMap_map]
    exact List.filterMap_some
  unfold complete? complete
  split
  · next hdone =>
    simp only [Option.map_map, Option.map_eq_some_iff, mapM_id_eq_some_iff, hdone, true_and]
    constructor
    · rintro ⟨blocks, hslots, hgiven⟩
      cases hgiven
      rw [hheld hslots]
      exact ⟨hslots, rfl, rfl⟩
    · rintro ⟨hslots, rfl, rfl⟩
      exact ⟨_, hslots, rfl⟩
  · next hnot => simp [hnot]

theorem complete?_of_complete {a : Assembler} {p : AssembledPiece} (h : a.complete.1 = some p) :
    a.complete? = some (p, a.complete.2) := by
  rw [complete?, h, Option.map_some]

theorem piece_of_add {a a' : Assembler} {b : Block} (h : a.add? b = some a') :
    b.piece = a.piece := (accepts_iff.mp (add?_eq_some_iff.mp h).1).2.1

theorem Filling.add {piece length : Nat} {a a' : Assembler} {b : Block}
    (h : a.Filling piece length) (hadd : a.add? b = some a') : a'.Filling piece length := by
  obtain ⟨haccepts, rfl⟩ := add?_eq_some_iff.mp hadd
  obtain ⟨_, _, _, hslot, hblock, hempty⟩ := accepts_iff.mp haccepts
  refine ⟨h.piece_eq, h.length_eq, h.blockSize_pos, ?_, ?_, ?_, h.not_completed⟩
  · rw [List.length_set]
    exact h.length_slots
  · intro slot buffer hget
    rw [List.getElem?_set] at hget
    split at hget
    · next heq =>
      cases hget
      rw [← heq]
      exact hblock
    · exact h.length_block slot buffer hget
  · show a.received + 1 = (a.slots.set _ (some b.data)).countP Option.isSome
    rw [List.getElem?_eq_getElem hslot, Option.some.injEq] at hempty
    rw [List.countP_set hslot, hempty, h.received_eq]
    rfl

/-- The blocks of all slots, joined together, are as long as the piece, or as many slots as there
are. -/
theorem length_flatten_blocks {length blockSize : Nat} {blocks : List Bytes}
    (hblocks : ∀ slot block, blocks[slot]? = some block →
      block.length = min (length - slot * blockSize) blockSize) :
    blocks.flatten.length = min length (blocks.length * blockSize) := by
  induction blocks generalizing length with
  | nil => simp only [List.flatten_nil, List.length_nil, Nat.zero_mul, Nat.min_zero]
  | cons block blocks ih =>
      have hfirst := hblocks 0 block rfl
      have hrest := @ih (length - blockSize) fun slot block' hget => by
        rw [hblocks (slot + 1) block' hget, Nat.succ_mul, Nat.sub_sub, Nat.add_comm blockSize]
      rw [Nat.zero_mul, Nat.sub_zero] at hfirst
      rw [List.flatten_cons, List.length_append, hfirst, hrest, List.length_cons, Nat.succ_mul]
      omega

theorem Filling.slots_eq {piece length : Nat} {a : Assembler} (h : a.Filling piece length)
    (hcomplete : a.isComplete = true) : a.slots = a.held.map some := by
  have hreceived := (isComplete_iff.mp hcomplete).2
  rw [h.received_eq] at hreceived
  have hall := List.countP_eq_length.mp hreceived
  unfold held
  generalize a.slots = slots at hall
  induction slots with
  | nil => rfl
  | cons slot slots ih =>
      obtain ⟨buffer, rfl⟩ := Option.isSome_iff_exists.mp (hall slot List.mem_cons_self)
      rw [List.filterMap_cons_some (f := id) rfl, List.map_cons,
        ← ih fun slot' hslot' => hall slot' (List.mem_cons_of_mem _ hslot')]

/-- When all blocks are there, all of them are handed over: no slot turns out to be empty. -/
theorem Filling.complete_eq {piece length : Nat} {a : Assembler} (h : a.Filling piece length)
    (hdone : a.isComplete = true) :
    a.complete = (some ⟨a.piece, a.length, a.held⟩, { a with slots := [], completed := true }) := by
  rw [Assembler.complete, if_pos hdone, mapM_id_eq_some_iff.mpr (h.slots_eq hdone)]
  rfl

theorem complete_eq_of_none {piece length : Nat} {a : Assembler}
    (h : a.completed = false → a.Filling piece length) (hnone : a.complete.1 = none) :
    a.isComplete = false ∧ a.complete = (none, a) := by
  cases hdone : a.isComplete with
  | true =>
      rw [(h (isComplete_iff.mp hdone).1).complete_eq hdone] at hnone
      cases hnone
  | false => exact ⟨rfl, if_neg (Bool.eq_false_iff.mp hdone)⟩

theorem Filling.complete {piece length : Nat} {a a' : Assembler} {p : AssembledPiece}
    (h : a.Filling piece length) (hcomplete : a.complete? = some (p, a')) :
    p.piece = piece ∧ p.length = length ∧ p.Whole := by
  obtain ⟨-, hslots, rfl, rfl⟩ := complete?_eq_some_iff.mp hcomplete
  refine ⟨h.piece_eq, h.length_eq, ?_⟩
  have hcount := h.length_slots
  have hpos := h.blockSize_pos
  have hblocks : ∀ slot block, (a.held.map Buffer.bytes)[slot]? = some block →
      block.length = min (a.length - slot * a.blockSize) a.blockSize := by
    intro slot block hget
    rw [List.getElem?_map, Option.map_eq_some_iff] at hget
    obtain ⟨buffer, hbuffer, rfl⟩ := hget
    apply h.length_block slot buffer
    rw [hslots, List.getElem?_map, hbuffer]
    rfl
  show (a.held.map Buffer.bytes).flatten.length = a.length
  rw [hslots, List.length_map] at hcount
  rw [length_flatten_blocks hblocks, List.length_map, hcount]
  have hcover := Nat.lt_div_mul_add (a := a.length + a.blockSize - 1) hpos
  omega

/-! ### Bytes in slots -/

def heldBytes (a : Assembler) : Nat := (a.held.map fun b => b.bytes.length).sum

theorem heldBytes_make (piece length blockSize : Nat) :
    (make piece length blockSize).heldBytes = 0 := by
  have hempty : (make piece length blockSize).held = [] := by
    rw [held, make, List.filterMap_replicate_of_none rfl]
  rw [heldBytes, hempty]
  rfl

theorem heldBytes_add {a a' : Assembler} {b : Block} (h : a.add? b = some a') :
    a'.heldBytes = a.heldBytes + b.data.bytes.length := by
  obtain ⟨haccepts, rfl⟩ := add?_eq_some_iff.mp h
  obtain ⟨_, _, _, hslot, _, hempty⟩ := accepts_iff.mp haccepts
  rw [List.getElem?_eq_getElem hslot, Option.some.injEq] at hempty
  simp only [heldBytes, held]
  generalize b.offset / a.blockSize = slot at hslot hempty
  have hsplit : a.slots = a.slots.take slot ++ none :: a.slots.drop (slot + 1) := by
    rw [← hempty, ← List.drop_eq_getElem_cons hslot, List.take_append_drop]
  have hset : a.slots.set slot (some b.data)
      = a.slots.take slot ++ some b.data :: a.slots.drop (slot + 1) := by
    rw [List.set_eq_take_append_cons_drop, if_pos hslot]
  rw [hset]
  conv_rhs => rw [hsplit]
  simp only [List.filterMap_append, List.filterMap_cons, id, List.map_append, List.map_cons,
    List.sum_append, List.sum_cons]
  omega

theorem Filling.heldBytes_eq {piece length : Nat} {a a' : Assembler} {p : AssembledPiece}
    (h : a.Filling piece length) (hcomplete : a.complete? = some (p, a')) :
    a.heldBytes = p.length := by
  obtain ⟨_, _, hwhole⟩ := h.complete hcomplete
  obtain ⟨-, -, rfl, -⟩ := complete?_eq_some_iff.mp hcomplete
  refine Eq.trans ?_ hwhole
  show _ = (a.held.map Buffer.bytes).flatten.length
  rw [List.length_flatten, List.map_map]
  rfl

/-! ### In any order -/

/-- A block for a slot of a piece whose slots are to hold this content. -/
structure Fills (piece length blockSize : Nat) (content : Nat → Bytes) (slot : Nat) (b : Block) :
    Prop where
  piece_eq : b.piece = piece
  offset_eq : b.offset = slot * blockSize
  bytes_eq : b.data.bytes = content slot
  length_eq : b.data.bytes.length = min (length - slot * blockSize) blockSize

/-- These slots hold their content, and the others are empty. -/
structure Collected (piece length blockSize : Nat) (content : Nat → Bytes) (filled : List Nat)
    (a : Assembler) : Prop where
  filling : a.Filling piece length
  blockSize_eq : a.blockSize = blockSize
  slots_eq : a.slots.map (Option.map Buffer.bytes) = (List.range a.slots.length).map fun slot =>
    if slot ∈ filled then some (content slot) else none

variable {piece length blockSize : Nat} {content : Nat → Bytes} {filled : List Nat}
  {a : Assembler} {b : Block}

theorem length_slots_make (h : 0 < blockSize) :
    (make piece length blockSize).slots.length = (length + blockSize - 1) / blockSize := by
  show (List.replicate ((length + max blockSize 1 - 1) / max blockSize 1) none).length = _
  rw [List.length_replicate, Nat.max_eq_left h]

theorem collected_make (h : 0 < blockSize) :
    (make piece length blockSize).Collected piece length blockSize content [] where
  filling := filling_make piece length blockSize
  blockSize_eq := Nat.max_eq_left h
  slots_eq := by
    simp only [make, List.map_replicate, List.length_replicate, Option.map_none, List.not_mem_nil,
      if_false, List.map_const', List.length_range]

theorem Collected.add (h : a.Collected piece length blockSize content filled) {slot : Nat}
    (hslot : slot < a.slots.length) (hnew : slot ∉ filled)
    (hb : Fills piece length blockSize content slot b) :
    ∃ a', a.add? b = some a' ∧ a'.Collected piece length blockSize content (slot :: filled)
      ∧ a'.slots.length = a.slots.length := by
  have hpos := h.filling.blockSize_pos
  have hnumber : b.offset / a.blockSize = slot := by
    rw [hb.offset_eq, ← h.blockSize_eq, Nat.mul_div_cancel slot hpos]
  have hempty : a.slots[slot]? = some none := by
    have hget := congrArg (fun slots => slots[slot]?) h.slots_eq
    simp only [List.getElem?_map, List.getElem?_range hslot, List.getElem?_eq_getElem hslot,
      Option.map_some, if_neg hnew, Option.some.injEq, Option.map_eq_none_iff] at hget
    rw [List.getElem?_eq_getElem hslot, hget]
  have haccepts : a.accepts b = true := by
    refine accepts_iff.mpr ⟨h.filling.not_completed, ?_, ?_, ?_, ?_, ?_⟩
    · rw [hb.piece_eq, h.filling.piece_eq]
    · rw [hb.offset_eq, h.blockSize_eq, Nat.mul_mod_left]
    · rw [hnumber]
      exact hslot
    · rw [hnumber, hb.length_eq, slotLength, h.filling.length_eq, h.blockSize_eq]
    · rw [hnumber]
      exact hempty
  have hadd : a.add? b = some { a with
      slots := a.slots.set slot (some b.data), received := a.received + 1 } := by
    rw [← hnumber]
    exact add?_eq_some_iff.mpr ⟨haccepts, rfl⟩
  refine ⟨_, hadd, ⟨h.filling.add hadd, h.blockSize_eq, ?_⟩, List.length_set⟩
  show (a.slots.set slot (some b.data)).map _
    = (List.range (a.slots.set slot (some b.data)).length).map _
  rw [List.map_set, h.slots_eq, List.length_set, Option.map_some, hb.bytes_eq]
  apply List.ext_getElem?
  intro i
  rw [List.getElem?_set, List.getElem?_map, List.getElem?_map, List.length_map, List.length_range]
  by_cases hi : slot = i
  · subst hi
    rw [if_pos rfl, if_pos hslot, List.getElem?_range hslot, Option.map_some,
      if_pos List.mem_cons_self]
  · rw [if_neg hi]
    by_cases hbound : i < a.slots.length
    · have hmem : i ∈ slot :: filled ↔ i ∈ filled :=
        ⟨fun hi' => (List.mem_cons.mp hi').resolve_left (Ne.symm hi), List.mem_cons_of_mem _⟩
      simp only [List.getElem?_range hbound, Option.map_some, hmem]
    · rw [List.getElem?_eq_none (by rw [List.length_range]; omega)]
      rfl

theorem Collected.complete (h : a.Collected piece length blockSize content filled)
    (hall : ∀ slot < a.slots.length, slot ∈ filled) :
    ∃ p a', a.complete? = some (p, a') ∧ p.piece = piece ∧ p.length = length
      ∧ p.bytes = ((List.range a.slots.length).map content).flatten := by
  have hcontent : a.slots.map (Option.map Buffer.bytes)
      = ((List.range a.slots.length).map content).map some := by
    rw [h.slots_eq, List.map_map]
    exact List.map_congr_left fun slot hslot => if_pos (hall slot (List.mem_range.mp hslot))
  have hsome : ∀ buffer ∈ a.slots, buffer.isSome = true := by
    intro buffer hbuffer
    have hmem := List.mem_map_of_mem (f := Option.map Buffer.bytes) hbuffer
    rw [hcontent] at hmem
    obtain ⟨bytes, _, hbytes⟩ := List.mem_map.mp hmem
    obtain ⟨b, rfl, _⟩ := Option.map_eq_some_iff.mp hbytes.symm
    rfl
  have hcomplete : a.isComplete = true := by
    rw [isComplete_iff, h.filling.received_eq]
    exact ⟨h.filling.not_completed, List.countP_eq_length.mpr hsome⟩
  have hheld : a.held.map Buffer.bytes = (List.range a.slots.length).map content := by
    have hslots := h.filling.slots_eq hcomplete
    rw [hslots, List.map_map, List.length_map] at hcontent
    rw [hslots, List.length_map]
    apply List.map_injective_iff.mpr (fun _ _ => Option.some.inj)
    rw [← hcontent, List.map_map]
    rfl
  exact ⟨_, _, complete?_eq_some_iff.mpr ⟨hcomplete, h.filling.slots_eq hcomplete, rfl, rfl⟩,
    h.filling.piece_eq,
    h.filling.length_eq, congrArg List.flatten hheld⟩

end Assembler

namespace PieceBuffer

theorem add?_eq_some {p p' : PieceBuffer} {b : Block} (h : p.add? b = some p') :
    p.assembler.add? b = some p'.assembler := by
  unfold add? at h
  split at h
  · cases h
  · obtain ⟨a, hadd, rfl⟩ := Option.map_eq_some_iff.mp h
    exact hadd

theorem complete?_eq_some {p p' : PieceBuffer} {piece : AssembledPiece}
    (h : p.complete? = some (piece, p')) :
    p.assembler.complete? = some (piece, p'.assembler) := by
  obtain ⟨⟨piece', a⟩, hcomplete, he⟩ := Option.map_eq_some_iff.mp h
  cases he
  exact hcomplete

theorem complete?_of_complete {p : PieceBuffer} {piece : AssembledPiece}
    (h : p.complete.1 = some piece) : p.complete? = some (piece, p.complete.2) := by
  rw [complete?, Assembler.complete?_of_complete h]
  rfl

theorem isComplete_of_complete? {p p' : PieceBuffer} {piece : AssembledPiece}
    (h : p.complete? = some (piece, p')) : p.isComplete = true := by
  exact (Assembler.complete?_eq_some_iff.mp (complete?_eq_some h)).1

def addAll? (p : PieceBuffer) (blocks : List Block) : Option PieceBuffer :=
  blocks.foldlM add? p

theorem addAll?_collected {piece length blockSize : Nat} {content : Nat → Bytes}
    {owner : Identifier} {slots : List Nat} {blocks : List Block}
    (hblocks : List.Forall₂ (fun slot b => b.sender = owner
      ∧ Assembler.Fills piece length blockSize content slot b) slots blocks) :
    ∀ (filled : List Nat) (p : PieceBuffer), p.owner = owner →
      p.assembler.Collected piece length blockSize content filled →
      (∀ slot ∈ slots, slot < p.assembler.slots.length) → (slots ++ filled).Nodup →
      ∃ p', p.addAll? blocks = some p'
        ∧ p'.assembler.Collected piece length blockSize content (slots.reverse ++ filled)
        ∧ p'.assembler.slots.length = p.assembler.slots.length := by
  induction hblocks with
  | nil => exact fun _ p _ hcollected _ _ => ⟨p, rfl, hcollected, rfl⟩
  | @cons slot b slots blocks hb _ ih =>
      intro filled p howner hcollected hslots hnodup
      obtain ⟨hsender, hfills⟩ := hb
      have hnew : slot ∉ filled := fun hmem =>
        (List.nodup_cons.mp hnodup).1 (List.mem_append_right _ hmem)
      obtain ⟨a, hadd, hcollected', hcount⟩ :=
        hcollected.add (hslots slot List.mem_cons_self) hnew hfills
      have hadd' : p.add? b = some ⟨p.owner, a⟩ := by
        rw [add?, if_neg (not_not_intro (hsender.trans howner.symm)), hadd]
        rfl
      obtain ⟨p', hrest, hcollected'', hcount'⟩ := ih (slot :: filled) ⟨p.owner, a⟩
        howner hcollected'
        (fun slot' hslot' => hcount ▸ hslots slot' (List.mem_cons_of_mem _ hslot'))
        (List.perm_middle.nodup_iff.mpr hnodup)
      refine ⟨p', ?_, ?_, hcount'.trans hcount⟩
      · rw [addAll?, List.foldlM_cons, hadd']
        exact hrest
      · rw [List.reverse_cons, List.append_assoc]
        exact hcollected''

/-- After one block for each slot, in any order, the piece is complete. -/
theorem complete?_addAll? {piece length blockSize : Nat} {content : Nat → Bytes}
    {owner : Identifier} {slots : List Nat} {blocks : List Block} (hpos : 0 < blockSize)
    (horder : slots.Perm (List.range ((length + blockSize - 1) / blockSize)))
    (hblocks : List.Forall₂ (fun slot b => b.sender = owner
      ∧ Assembler.Fills piece length blockSize content slot b) slots blocks) :
    ∃ p whole rest, (make owner piece length blockSize).addAll? blocks = some p
      ∧ p.complete? = some (whole, rest) ∧ whole.piece = piece ∧ whole.length = length
      ∧ whole.bytes
        = ((List.range ((length + blockSize - 1) / blockSize)).map content).flatten := by
  have hcount : (make owner piece length blockSize).assembler.slots.length
      = (length + blockSize - 1) / blockSize := Assembler.length_slots_make hpos
  obtain ⟨p, hadd, hcollected, hsame⟩ := addAll?_collected hblocks []
    (make owner piece length blockSize) rfl (Assembler.collected_make hpos)
    (fun slot hslot => hcount.symm ▸ List.mem_range.mp (horder.mem_iff.mp hslot))
    (by rw [List.append_nil]; exact horder.nodup_iff.mpr List.nodup_range)
  rw [hcount] at hsame
  obtain ⟨whole, a, hcomplete, hpiece, hlength, hbytes⟩ := hcollected.complete fun slot hslot => by
    rw [List.append_nil, List.mem_reverse, horder.mem_iff, List.mem_range, ← hsame]
    exact hslot
  rw [hsame] at hbytes
  refine ⟨p, whole, { p with assembler := a }, hadd, ?_, hpiece, hlength, hbytes⟩
  rw [complete?, hcomplete]
  rfl

end PieceBuffer

end TorrentCore
