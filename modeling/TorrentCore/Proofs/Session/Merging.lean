import TorrentCore.Proofs.Assembly.FirstBlocks
import TorrentCore.Proofs.Session.Run
import TorrentCore.Proofs.Session.Turn

/-!
# Which blocks are merged

Whether a block is merged depends on the geometry, on the pieces that are there, on the peer that
the piece was asked from last and on the slots of the piece. `Wants` is all of this together. A
block that is wanted goes into its slot, and nothing else moves but a counter and, with the last
block, the piece. A block that is not wanted goes back to its pool, and all that anybody can see of
it later is the count of its sender and a buffer with the blocks that it had before.
-/

namespace TorrentCore

namespace Assembler

/-- A slot of this length, at this place of this piece, is empty. -/
structure Lacks (a : Assembler) (b : Block) : Prop where
  not_completed : a.completed = false
  fits : b.Fits a.piece a.length a.blockSize
  empty : a.slots[b.offset / a.blockSize]? = some none

def fill (a : Assembler) (b : Block) : Assembler :=
  { a with
    slots := a.slots.set (b.offset / a.blockSize) (some b.data)
    received := a.received + 1 }

variable {a : Assembler} {b : Block}

theorem add?_eq_of_lacks (hpos : 0 < a.blockSize)
    (hslots : a.slots.length = Geometry.cutCount a.length a.blockSize) (h : a.Lacks b) :
    a.add? b = some (a.fill b) :=
  add?_eq_some_iff.mpr ⟨(accepts_iff_fits hpos hslots).mpr ⟨h.not_completed, h.fits, h.empty⟩, rfl⟩

theorem lacks_of_accepts (hpos : 0 < a.blockSize)
    (hslots : a.slots.length = Geometry.cutCount a.length a.blockSize)
    (h : a.accepts b = true) : a.Lacks b := by
  obtain ⟨hopen, hfits, hempty⟩ := (accepts_iff_fits hpos hslots).mp h
  exact ⟨hopen, hfits, hempty⟩

theorem fill_ne (a : Assembler) (b : Block) : a.fill b ≠ a := by
  intro heq
  have hreceived : a.received + 1 = a.received := congrArg Assembler.received heq
  omega

/-- While something is missing, what was received is what is in the slots. -/
theorem Filling.isComplete_iff {piece length : Nat} (h : a.Filling piece length) :
    a.isComplete = true ↔ none ∉ a.slots := by
  rw [Assembler.isComplete_iff, h.received_eq, List.countP_eq_length]
  constructor
  · rintro ⟨-, hall⟩ hnone
    cases hall none hnone
  · intro hfull
    refine ⟨h.not_completed, fun slot hslot => Option.isSome_iff_ne_none.mpr ?_⟩
    rintro rfl
    exact hfull hslot

end Assembler

namespace PieceBuffer

/-- A buffer that came about by what can be done with buffers. -/
def Made (p : PieceBuffer) : Prop := ∃ first piece length blockSize acts,
  p = (Log.run first piece length blockSize acts).buffer

variable {p p' : PieceBuffer} {b : Block}

theorem made_make (owner : Identifier) (piece length blockSize : Nat) :
    (make owner piece length blockSize).Made := ⟨owner, piece, length, blockSize, [], rfl⟩

theorem Made.act (h : p.Made) (a : Act) : (p.act a).2.Made := by
  obtain ⟨first, piece, length, blockSize, acts, rfl⟩ := h
  refine ⟨first, piece, length, blockSize, acts ++ [a], ?_⟩
  rw [Log.run_concat]
  rfl

theorem Made.entrust (h : p.Made) (owner : Identifier) : Made { p with owner := owner } :=
  h.act (.entrust owner)

theorem Made.add (h : p.Made) (hadd : p.add? b = some p') : p'.Made := by
  have hact : p.act (.offer b) = (.taken true, p') := by rw [PieceBuffer.act, hadd]
  have hmade := h.act (.offer b)
  rwa [hact] at hmade

theorem Made.filling (h : p.Made) (hopen : p.assembler.completed = false) :
    p.assembler.Filling p.assembler.piece p.assembler.length := by
  obtain ⟨first, piece, length, blockSize, acts, rfl⟩ := h
  have hkept : (Log.run first piece length blockSize acts).Kept first piece length
      (max blockSize 1) := Log.kept_run acts
  have hfilling := hkept.holds.filling_of_open hopen
  rwa [hfilling.piece_eq, hfilling.length_eq]

theorem Made.add?_eq_some_iff (h : p.Made) :
    p.add? b = some p' ↔ b.sender = p.owner ∧ p.assembler.Lacks b
      ∧ p' = ⟨p.owner, p.assembler.fill b⟩ := by
  constructor
  · intro hadd
    have hadd' := add?_eq_some hadd
    obtain ⟨haccepts, hfill⟩ := Assembler.add?_eq_some_iff.mp hadd'
    have hfilling := h.filling (Assembler.accepts_iff.mp haccepts).1
    refine ⟨(isSome_add?_iff.mp (by rw [hadd]; rfl)).1,
      Assembler.lacks_of_accepts hfilling.blockSize_pos hfilling.length_slots haccepts, ?_⟩
    rw [← owner_of_add? hadd]
    exact congrArg (PieceBuffer.mk p'.owner) hfill
  · rintro ⟨hsender, hlacks, rfl⟩
    have hfilling := h.filling hlacks.not_completed
    rw [add?, if_neg (not_not_intro hsender),
      Assembler.add?_eq_of_lacks hfilling.blockSize_pos hfilling.length_slots hlacks]
    rfl

end PieceBuffer

namespace Session

variable {s : Session} {b : Block} {out : Option AssembledPiece × Session}

def assemblerFor (s : Session) (index : Nat) : Assembler :=
  match s.unfinished.get? index with
  | some buffer => buffer.assembler
  | none =>
    .make index (s.geometry.lengthOf ⟨UInt32.ofNat index⟩).toNat s.geometry.blockLength.toNat

def blockAt (s : Session) (index slot : Nat) : Option Buffer :=
  (s.unfinished.get? index).bind fun buffer => buffer.assembler.slots.getD slot none

/-- A block is wanted: its piece exists and is missing, its sender is the peer that the piece was
asked from last, and the slots of the piece lack it. -/
structure Wants (s : Session) (b : Block) : Prop where
  valid : (s.geometry.piece? (UInt32.ofNat b.piece)).isSome = true
  missing : s.owned.contains b.piece = false
  asked : s.owners.get? b.piece = some b.sender
  lacks : (s.assemblerFor b.piece).Lacks b

/-- A block is merged. It is counted and goes into its slot, and if that was the last one the piece
is given and its buffer removed. -/
structure Takes (s : Session) (b : Block) (out : Option AssembledPiece × Session) : Prop where
  frame : ∃ unfinished, out.2 = { s with
    counters := s.counters.blockFetched b.data.bytes.length
    unfinished := unfinished }
  others : ∀ index, index ≠ b.piece → out.2.unfinished.get? index = s.unfinished.get? index
  outcome : (none ∈ ((s.assemblerFor b.piece).fill b).slots ∧ out.1 = none
      ∧ out.2.unfinished.get? b.piece = some ⟨b.sender, (s.assemblerFor b.piece).fill b⟩)
    ∨ ∃ blocks, ((s.assemblerFor b.piece).fill b).slots = blocks.map some
      ∧ out.1 = some ⟨b.piece, (s.assemblerFor b.piece).length, blocks⟩
      ∧ out.2.unfinished.get? b.piece = none

/-- A block is not merged. It goes back to the pool of blocks. Its sender may have it counted, and
the piece may get a buffer, or the buffer its present owner. -/
structure Declines (s : Session) (b : Block) (out : Option AssembledPiece × Session) : Prop where
  nothing : out.1 = none
  frame : ∃ members unfinished, out.2 = { s with
    hub := { s.hub with blockPool := s.hub.blockPool.giveBack b.data }
    members := members
    unfinished := unfinished }
  members : out.2.members = s.members ∨ ∃ number, s.peers.get? b.sender = some number
    ∧ out.2.members = s.members.modify number fun m => { m with
      connection := { m.connection with counters := m.connection.counters.blockDiscarded } }
  unfinished : ∀ index, out.2.unfinished.get? index = s.unfinished.get? index
    ∨ index = b.piece ∧ ∃ owner, s.owners.get? index = some owner
      ∧ out.2.unfinished.get? index = some ⟨owner, s.assemblerFor index⟩
  slots : ∀ index slot, out.2.blockAt index slot = s.blockAt index slot

/-- Every buffer came about by what can be done with buffers, whichever piece it is for. -/
def Stocked (s : Session) : Prop := ∀ index buffer, s.unfinished.get? index = some buffer →
  buffer.Made

/-- Every buffer is for the piece that it is found under. -/
def Filed (s : Session) : Prop := ∀ index buffer, s.unfinished.get? index = some buffer →
  buffer.assembler.piece = index
    ∧ buffer.assembler.length = (s.geometry.lengthOf ⟨UInt32.ofNat index⟩).toNat
    ∧ buffer.assembler.blockSize = max s.geometry.blockLength.toNat 1
    ∧ buffer.assembler.completed = false

theorem bufferFor_eq {index : Nat} (hword : (UInt32.ofNat index).toNat = index)
    (owner : Identifier) :
    s.bufferFor ⟨UInt32.ofNat index⟩ owner = ⟨owner, s.assemblerFor index⟩ := by
  unfold bufferFor assemblerFor
  rw [hword]
  cases s.unfinished.get? index with
  | none => rfl
  | some buffer => rfl

theorem assemblerFor_of_get? {index : Nat} {buffer : PieceBuffer}
    (h : s.unfinished.get? index = some buffer) : s.assemblerFor index = buffer.assembler := by
  rw [assemblerFor, h]

theorem getD_slots_assemblerFor (s : Session) (index slot : Nat) :
    (s.assemblerFor index).slots.getD slot none = s.blockAt index slot := by
  rw [assemblerFor, blockAt]
  cases s.unfinished.get? index with
  | none =>
      rw [Option.bind_none, Assembler.make, List.getD_eq_getElem?_getD, List.getElem?_replicate]
      split <;> rfl
  | some buffer => rfl

theorem Stocked.made_assemblerFor (h : s.Stocked) (owner : Identifier) (index : Nat) :
    PieceBuffer.Made ⟨owner, s.assemblerFor index⟩ := by
  unfold assemblerFor
  split
  · next buffer hbuffer => exact (h index buffer hbuffer).entrust owner
  · exact PieceBuffer.made_make owner _ _ _

/-! ### The ways through -/

theorem declines_dropBlock (s : Session) (b : Block) : s.Declines b (none, s.dropBlock b) where
  nothing := rfl
  frame := ⟨s.members, s.unfinished, rfl⟩
  members := .inl rfl
  unfinished _ := .inl rfl
  slots _ _ := rfl

theorem unfinished_noteDiscarded (s : Session) (sender : Identifier) :
    (s.noteDiscarded sender).unfinished = s.unfinished := by
  unfold noteDiscarded
  split <;> rfl

theorem declines_refused {owner : Identifier} (howner : s.owners.get? b.piece = some owner) :
    s.Declines b (none, (dropBlock { s with
      unfinished := s.unfinished.insert b.piece ⟨owner, s.assemblerFor b.piece⟩ } b).noteDiscarded
        b.sender) := by
  have hunfinished := unfinished_noteDiscarded (dropBlock { s with
    unfinished := s.unfinished.insert b.piece ⟨owner, s.assemblerFor b.piece⟩ } b) b.sender
  refine ⟨rfl, ?_, ?_, fun index => ?_, fun index slot => ?_⟩
  · unfold noteDiscarded
    split <;> exact ⟨_, _, rfl⟩
  · unfold noteDiscarded
    split
    · next number hnumber => exact .inr ⟨number, hnumber, rfl⟩
    · exact .inl rfl
  · rw [hunfinished]
    by_cases hindex : index = b.piece
    · subst hindex
      exact .inr ⟨rfl, owner, howner, Table.get?_insert_self⟩
    · exact .inl (Table.get?_insert_of_ne hindex)
  · by_cases hindex : index = b.piece
    · subst hindex
      rw [← getD_slots_assemblerFor s, blockAt, hunfinished]
      exact congrArg (fun found => Option.bind found _) Table.get?_insert_self
    · rw [blockAt, blockAt, hunfinished]
      exact congrArg (fun found => Option.bind found _) (Table.get?_insert_of_ne hindex)

def filledFor (s : Session) (b : Block) : PieceBuffer :=
  ⟨b.sender, (s.assemblerFor b.piece).fill b⟩

theorem takes_filled
    (hfilling : (s.filledFor b).assembler.Filling b.piece (s.assemblerFor b.piece).length)
    (hopen : ¬ (s.filledFor b).isComplete = true) :
    s.Takes b (none, { s with
      counters := s.counters.blockFetched b.data.bytes.length
      unfinished := s.unfinished.insert b.piece (s.filledFor b) }) := by
  refine ⟨⟨_, rfl⟩, fun index hindex => Table.get?_insert_of_ne hindex,
    .inl ⟨?_, rfl, Table.get?_insert_self⟩⟩
  by_contra hfull
  exact hopen (hfilling.isComplete_iff.mpr hfull)

theorem takes_completed
    (hfilling : (s.filledFor b).assembler.Filling b.piece (s.assemblerFor b.piece).length)
    (hdone : (s.filledFor b).isComplete = true) :
    s.Takes b ((s.filledFor b).complete.1, { s with
      counters := s.counters.blockFetched b.data.bytes.length
      unfinished := s.unfinished.erase b.piece }) := by
  have hcomplete := congrArg Prod.fst (hfilling.complete_eq hdone)
  rw [PieceBuffer.complete, hcomplete]
  refine ⟨⟨_, rfl⟩, fun index hindex => Table.get?_erase_of_ne hindex,
    .inr ⟨(s.filledFor b).assembler.held, hfilling.slots_eq hdone, ?_, Table.get?_erase_self⟩⟩
  rw [hfilling.piece_eq, hfilling.length_eq]

theorem addBlock_outcome (hstocked : s.Stocked) (hword : (UInt32.ofNat b.piece).toNat = b.piece) :
    s.Wants b ∧ s.Takes b (s.addBlock b) ∨ ¬ s.Wants b ∧ s.Declines b (s.addBlock b) := by
  unfold addBlock
  split
  · next hpiece =>
    refine .inr ⟨fun hwants => ?_, declines_dropBlock s b⟩
    have hvalid := hwants.valid
    rw [hpiece] at hvalid
    cases hvalid
  next p hpiece =>
  cases Geometry.piece?_eq_some hpiece
  split
  · next howned =>
    refine .inr ⟨fun hwants => ?_, declines_dropBlock s b⟩
    rw [hwants.missing] at howned
    cases howned
  next hmissing =>
  rw [Bool.not_eq_true] at hmissing
  split
  · next howner =>
    refine .inr ⟨fun hwants => ?_, declines_dropBlock s b⟩
    rw [hwants.asked] at howner
    cases howner
  next owner howner =>
  have hmade := hstocked.made_assemblerFor owner b.piece
  rw [bufferFor_eq hword]
  simp only
  split
  · next hrefused =>
    refine .inr ⟨fun hwants => ?_, declines_refused howner⟩
    have hsender : b.sender = owner := Option.some.inj (hwants.asked.symm.trans howner)
    rw [hmade.add?_eq_some_iff.mpr ⟨hsender, hwants.lacks, rfl⟩] at hrefused
    cases hrefused
  next buffer hadded =>
  obtain ⟨rfl, hlacks, hbuffer⟩ := hmade.add?_eq_some_iff.mp hadded
  have hwants : s.Wants b := ⟨by rw [hpiece]; rfl, hmissing, howner, hlacks⟩
  have hfilling := (hmade.filling hlacks.not_completed).add (PieceBuffer.add?_eq_some hadded)
  have hfilled : buffer = s.filledFor b := hbuffer
  rw [← hlacks.fits.piece_eq] at hfilling
  rw [hfilled] at hfilling ⊢
  split
  · next hdone => exact .inl ⟨hwants, takes_completed hfilling hdone⟩
  · next hopen => exact .inl ⟨hwants, takes_filled hfilling hopen⟩

/-- No block is both taken and declined, because the slots of its piece count what they received. -/
theorem Takes.not_declines (h : s.Takes b out) : ¬ s.Declines b out := by
  intro hdeclines
  rcases h.outcome with ⟨-, -, hbuffer⟩ | ⟨_, -, hpiece, -⟩
  · rcases hdeclines.unfinished b.piece with hsame | ⟨-, owner, -, hsame⟩
    · have hslots := assemblerFor_of_get? (hsame.symm.trans hbuffer)
      exact Assembler.fill_ne _ b hslots.symm
    · rw [hbuffer, Option.some.injEq, PieceBuffer.mk.injEq] at hsame
      exact Assembler.fill_ne _ b hsame.2
  · rw [hdeclines.nothing] at hpiece
    cases hpiece

/-! ### Buffers after a block -/

theorem get?_unfinished_addBlock (hstocked : s.Stocked)
    (hword : (UInt32.ofNat b.piece).toNat = b.piece) {index : Nat} {buffer : PieceBuffer}
    (h : (s.addBlock b).2.unfinished.get? index = some buffer) :
    s.unfinished.get? index = some buffer ∨ index = b.piece
      ∧ ((∃ owner, buffer = ⟨owner, s.assemblerFor b.piece⟩)
        ∨ (s.assemblerFor b.piece).Lacks b ∧ buffer = s.filledFor b) := by
  rcases addBlock_outcome hstocked hword with ⟨hwants, htakes⟩ | ⟨-, hdeclines⟩
  · by_cases hindex : index = b.piece
    · subst hindex
      rcases htakes.outcome with ⟨-, -, hbuffer⟩ | ⟨_, -, -, hgone⟩
      · rw [hbuffer, Option.some.injEq] at h
        exact .inr ⟨rfl, .inr ⟨hwants.lacks, h.symm⟩⟩
      · rw [hgone] at h
        cases h
    · exact .inl ((htakes.others index hindex).symm.trans h)
  · rcases hdeclines.unfinished index with hsame | ⟨rfl, owner, -, hbuffer⟩
    · exact .inl (hsame.symm.trans h)
    · rw [hbuffer, Option.some.injEq] at h
      exact .inr ⟨rfl, .inl ⟨owner, h.symm⟩⟩

theorem Stocked.addBlock (h : s.Stocked) (hword : (UInt32.ofNat b.piece).toNat = b.piece) :
    (s.addBlock b).2.Stocked := by
  intro index buffer hget
  rcases get?_unfinished_addBlock h hword hget with hold | ⟨rfl, ⟨owner, rfl⟩ | ⟨hlacks, rfl⟩⟩
  · exact h index buffer hold
  · exact h.made_assemblerFor owner b.piece
  · have hmade := h.made_assemblerFor b.sender b.piece
    exact hmade.add (hmade.add?_eq_some_iff.mpr ⟨rfl, hlacks, rfl⟩)

theorem Filed.assemblerFor (h : s.Filed) (index : Nat) : (s.assemblerFor index).piece = index
    ∧ (s.assemblerFor index).length = (s.geometry.lengthOf ⟨UInt32.ofNat index⟩).toNat
    ∧ (s.assemblerFor index).blockSize = max s.geometry.blockLength.toNat 1
    ∧ (s.assemblerFor index).completed = false := by
  unfold Session.assemblerFor
  split
  · next buffer hbuffer => exact h index buffer hbuffer
  · exact ⟨rfl, rfl, rfl, rfl⟩

theorem geometry_addBlock (s : Session) (b : Block) : (s.addBlock b).2.geometry = s.geometry := by
  obtain ⟨unfinished, houtline⟩ := Merge.outline_eq (addBlock_cases s b)
  exact congrArg Holdings.geometry (holdings_of_outline houtline)

theorem Filed.addBlock (h : s.Filed) (hstocked : s.Stocked)
    (hword : (UInt32.ofNat b.piece).toNat = b.piece) : (s.addBlock b).2.Filed := by
  intro index buffer hget
  rw [geometry_addBlock]
  rcases get?_unfinished_addBlock hstocked hword hget with hold | ⟨rfl, ⟨owner, rfl⟩ | ⟨-, rfl⟩⟩
  · exact h index buffer hold
  · exact h.assemblerFor b.piece
  · exact h.assemblerFor b.piece

theorem Filed.lacks_iff (h : s.Filed) (hstocked : s.Stocked) : (s.assemblerFor b.piece).Lacks b
    ↔ b.Fits b.piece (s.geometry.lengthOf ⟨UInt32.ofNat b.piece⟩).toNat
        (max s.geometry.blockLength.toNat 1)
      ∧ s.blockAt b.piece (b.offset / max s.geometry.blockLength.toNat 1) = none := by
  obtain ⟨hpiece, hlength, hsize, hopen⟩ := h.assemblerFor b.piece
  have hfilling := (hstocked.made_assemblerFor b.sender b.piece).filling hopen
  rw [← hlength, ← hsize, ← getD_slots_assemblerFor, List.getD_eq_getElem?_getD]
  constructor
  · rintro ⟨-, hfits, hempty⟩
    rw [hpiece] at hfits
    exact ⟨hfits, by rw [hempty, Option.getD_some]⟩
  · rintro ⟨hfits, hempty⟩
    have hslot : b.offset / (s.assemblerFor b.piece).blockSize
        < (s.assemblerFor b.piece).slots.length := by
      rw [hfilling.length_slots]
      exact hfits.slot_lt hfilling.blockSize_pos
    rw [List.getElem?_eq_getElem hslot, Option.getD_some] at hempty
    exact ⟨hopen, hpiece.symm ▸ hfits, by rw [List.getElem?_eq_getElem hslot, hempty]⟩

/-- Blocks are merged exactly as they are wanted, whoever sent them and whatever is there. -/
theorem takes_addBlock_iff (h : s.Stocked) (sender : Identifier) (index offset : UInt32)
    (data : Buffer) :
    let b : Block := ⟨sender, index.toNat, offset.toNat, data⟩
    (s.Takes b (s.addBlock b) ↔ s.Wants b)
      ∧ (s.Declines b (s.addBlock b) ↔ ¬ s.Wants b)
      ∧ (s.addBlock b).2.Stocked
      ∧ (s.Filed → (s.addBlock b).2.Filed
        ∧ ((s.assemblerFor index.toNat).Lacks b
          ↔ b.Fits index.toNat (s.geometry.lengthOf ⟨index⟩).toNat
              (max s.geometry.blockLength.toNat 1)
            ∧ s.blockAt index.toNat (offset.toNat / max s.geometry.blockLength.toNat 1)
              = none)) := by
  intro b
  have hword : (UInt32.ofNat b.piece).toNat = b.piece := by rw [UInt32.ofNat_toNat]
  have houtcome := addBlock_outcome h hword
  refine ⟨⟨fun htakes => ?_, fun hwants => ?_⟩, ⟨fun hdeclines hwants => ?_, fun hnot => ?_⟩,
    h.addBlock hword, fun hfiled => ⟨hfiled.addBlock h hword, ?_⟩⟩
  · rcases houtcome with ⟨hwants, -⟩ | ⟨-, hdeclines⟩
    · exact hwants
    · exact absurd hdeclines htakes.not_declines
  · rcases houtcome with ⟨-, htakes⟩ | ⟨hnot, -⟩
    · exact htakes
    · exact absurd hwants hnot
  · rcases houtcome with ⟨-, htakes⟩ | ⟨hnot, -⟩
    · exact htakes.not_declines hdeclines
    · exact hnot hwants
  · rcases houtcome with ⟨hwants, -⟩ | ⟨-, hdeclines⟩
    · exact absurd hwants hnot
    · exact hdeclines
  · have hlacks := hfiled.lacks_iff h (b := b)
    rwa [show UInt32.ofNat b.piece = index from UInt32.ofNat_toNat] at hlacks

def entrusted (s : Session) (owner : Identifier) : Session :=
  { s with owners := s.owners.insert 0 owner }

def ofFirstPiece (sender : Identifier) (offset : UInt32) (value : UInt8) : Block :=
  ⟨sender, (0 : UInt32).toNat, offset.toNat, ⟨1, [value]⟩⟩

/-- The first block of a piece comes from the peer that it was asked from. Then the piece is asked
from another peer, the second block is declined if it still comes from the first peer, and the piece
is there when it comes from the other. -/
theorem takes_addBlock_iff_handedOn : ∃ s, make .zero twoPieces {} {} = .ok s
    ∧ (s.entrusted .zero).Stocked
    ∧ (s.entrusted .zero).Takes (ofFirstPiece .zero 0 10)
      ((s.entrusted .zero).addBlock (ofFirstPiece .zero 0 10))
    ∧ ∃ s', s' = (((s.entrusted .zero).addBlock (ofFirstPiece .zero 0 10)).2.entrusted
        PieceBuffer.Log.heir)
      ∧ s'.Declines (ofFirstPiece .zero 1 11) (s'.addBlock (ofFirstPiece .zero 1 11))
      ∧ (s'.addBlock (ofFirstPiece PieceBuffer.Log.heir 1 11)).1
        = some ⟨0, 2, [⟨1, [10]⟩, ⟨1, [11]⟩]⟩ := by
  have htest : (make .zero twoPieces {} {}).toOption.any (fun s =>
      let next := (s.entrusted .zero).addBlock (ofFirstPiece .zero 0 10)
      decide (s.unfinished = .empty ∧ next.2.counters ≠ s.counters
        ∧ ((next.2.entrusted PieceBuffer.Log.heir).addBlock
          (ofFirstPiece PieceBuffer.Log.heir 1 11)).1
            = some ⟨0, 2, [⟨1, [10]⟩, ⟨1, [11]⟩]⟩)) = true := by
    decide +kernel
  obtain ⟨s, hs, htest⟩ := (Option.any_eq_true _ _).mp htest
  obtain ⟨hempty, hcounted, hpiece⟩ := of_decide_eq_true htest
  have hstocked : (s.entrusted .zero).Stocked := by
    intro index buffer hget
    have hget' : s.unfinished.get? index = some buffer := hget
    rw [hempty] at hget'
    cases hget'
  obtain ⟨htakes, hdeclines, hstocked', -⟩ := takes_addBlock_iff hstocked .zero 0 0 ⟨1, [10]⟩
  have hfirst : (s.entrusted .zero).Takes (ofFirstPiece .zero 0 10)
      ((s.entrusted .zero).addBlock (ofFirstPiece .zero 0 10)) := by
    refine htakes.mpr (by_contra fun hnot => ?_)
    obtain ⟨_, _, hframe⟩ := (hdeclines.mpr hnot).frame
    have hsame := congrArg Session.counters hframe
    exact hcounted hsame
  refine ⟨s, make_eq_ok_of_toOption hs, hstocked, hfirst, _, rfl, ?_, hpiece⟩
  have hlater : (((s.entrusted .zero).addBlock (ofFirstPiece .zero 0 10)).2.entrusted
      PieceBuffer.Log.heir).Stocked := hstocked'
  refine (takes_addBlock_iff hlater .zero 0 1 ⟨1, [11]⟩).2.1.mpr fun hwants => ?_
  have hasked := hwants.asked.symm.trans Table.get?_insert_self
  revert hasked
  decide

end Session

end TorrentCore
