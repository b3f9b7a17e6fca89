import TorrentCore.Proofs.Assembly
import TorrentCore.Proofs.Geometry.Tiling
import TorrentCore.Proofs.Wire.Codec

/-!
# What counts as a block

Whether an offset and a length describe a block of a piece is decided three times: by division when
a block is received, by counting blocks off when they are asked for, and by the slots of an
assembler when it is put in its place. All three come to what `Block.Fits` says in plain numbers, so
they agree on all words, however large the offset and however short the last block.
-/

namespace TorrentCore

/-- A block begins where a slot of its piece begins and is as long as that slot. -/
structure Block.Fits (piece length blockSize : Nat) (b : Block) : Prop where
  piece_eq : b.piece = piece
  aligned : blockSize ∣ b.offset
  inside : b.offset < length
  length_eq : b.data.bytes.length = min (length - b.offset) blockSize

theorem Block.Fits.slot_lt {piece length blockSize : Nat} {b : Block} (hpos : 0 < blockSize)
    (h : b.Fits piece length blockSize) :
    b.offset / blockSize < Geometry.cutCount length blockSize := by
  rw [Geometry.lt_cutCount_iff hpos, Nat.div_mul_cancel h.aligned]
  exact h.inside

/-- A block comes in a message whose length is a word. -/
theorem Message.length_block_lt {bytes block : Bytes} {limit index offset : UInt32} {size : Nat}
    (h : decode bytes limit = .ok (.piece index offset block, size)) :
    block.length < 4294967296 := by
  obtain ⟨_, _, _, _, hfits, -⟩ := decode_eq_ok h
  have hlength : (Message.piece index offset block).body.length = 9 + block.length := by
    simp only [body, kind?, payload, Option.toList_some, List.length_append, List.length_cons,
      List.length_nil, Bytes.length_ofWord]
    omega
  omega

namespace Assembler

/-- Of a block that was read, the length is that of a slot just if it is as a word. -/
theorem word_length_eq_iff {bytes block : Bytes} {limit index offset : UInt32} {size : Nat}
    (h : Message.decode bytes limit = .ok (.piece index offset block, size)) {a : Assembler}
    (hlength : a.length < 4294967296) (slot : Nat) :
    UInt32.ofNat block.length = UInt32.ofNat (a.slotLength slot)
      ↔ block.length = a.slotLength slot := by
  have hslot : a.slotLength slot < 4294967296 :=
    Nat.lt_of_le_of_lt (Nat.le_trans (Nat.min_le_left _ _) (Nat.sub_le _ _)) hlength
  rw [← UInt32.toNat_inj, UInt32.toNat_ofNat_of_lt' (Message.length_block_lt h),
    UInt32.toNat_ofNat_of_lt' hslot]

theorem accepts_iff_fits {a : Assembler} (hpos : 0 < a.blockSize)
    (hslots : a.slots.length = Geometry.cutCount a.length a.blockSize) {b : Block} :
    a.accepts b = true ↔ a.completed = false ∧ b.Fits a.piece a.length a.blockSize
      ∧ a.slots[b.offset / a.blockSize]? = some none := by
  rw [accepts_iff, hslots, Geometry.lt_cutCount_iff hpos, slotLength]
  constructor
  · rintro ⟨hopen, hpiece, hbegins, hslot, hlength, hempty⟩
    have haligned := Nat.dvd_of_mod_eq_zero hbegins
    rw [Nat.div_mul_cancel haligned] at hslot hlength
    exact ⟨hopen, ⟨hpiece, haligned, hslot, hlength⟩, hempty⟩
  · rintro ⟨hopen, hfits, hempty⟩
    rw [Nat.div_mul_cancel hfits.aligned]
    exact ⟨hopen, hfits.piece_eq, Nat.mod_eq_zero_of_dvd hfits.aligned, hfits.inside,
      hfits.length_eq, hempty⟩

theorem isSome_add?_make_iff {piece length blockSize : Nat} (hpos : 0 < blockSize) {b : Block} :
    ((make piece length blockSize).add? b).isSome = true ↔ b.Fits piece length blockSize := by
  have hsize : (make piece length blockSize).blockSize = blockSize := Nat.max_eq_left hpos
  have hcount : (make piece length blockSize).slots.length = Geometry.cutCount length blockSize :=
    length_slots_make hpos
  have hpos' : 0 < (make piece length blockSize).blockSize := hsize.symm ▸ hpos
  have hcount' : (make piece length blockSize).slots.length
      = Geometry.cutCount length (make piece length blockSize).blockSize := by rw [hcount, hsize]
  rw [isSome_add?_iff, accepts_iff_fits hpos' hcount', hsize]
  constructor
  · rintro ⟨-, hfits, -⟩
    exact hfits
  · intro hfits
    have hslot : b.offset / blockSize < (make piece length blockSize).slots.length := by
      rw [hcount]
      exact hfits.slot_lt hpos
    refine ⟨rfl, hfits, ?_⟩
    rw [List.getElem?_eq_getElem hslot]
    simp [make]

end Assembler

namespace Geometry

variable {g : Geometry} {p : PieceIndex}

theorem Sound.received?_eq_some_iff (h : g.Sound) {index offset length : UInt32} {b : BlockInfo} :
    g.received? index offset length = some b
      ↔ ∃ p, g.piece? index = some p ∧ b ∈ g.blocks p ∧ b.offset = offset ∧ b.size = length := by
  constructor
  · intro hreceived
    unfold received? at hreceived
    split at hreceived
    · cases hreceived
    next p hp =>
    split at hreceived
    · cases hreceived
    next hbegins =>
    simp only at hreceived
    split at hreceived
    · cases hreceived
    next size hsize =>
    split at hreceived
    · next heq =>
      cases hreceived
      rw [h.blockSize?_eq, Option.map_eq_some_iff] at hsize
      obtain ⟨b, hb, hlength⟩ := hsize
      obtain ⟨hk, rfl⟩ := h.getElem?_blocks.mp hb
      have hbegins' : offset.toNat % g.blockLength.toNat = 0 := by
        rw [← UInt32.toNat_mod, not_not.mp hbegins]
        rfl
      -- The division leaves nothing over, so the number of the block gives its offset back.
      have hoffset : (g.block p (offset / g.blockLength).toNat).offset = offset := by
        apply UInt32.toNat_inj.mp
        rw [(h.toNat_block hk).2.1, UInt32.toNat_div]
        exact Nat.div_mul_cancel (Nat.dvd_of_mod_eq_zero hbegins')
      have hblock : (g.block p (offset / g.blockLength).toNat).block = offset / g.blockLength :=
        UInt32.toNat_inj.mp (h.toNat_block hk).1
      refine ⟨p, hp, ?_, rfl, rfl⟩
      have hsame : g.block p (offset / g.blockLength).toNat
          = ⟨p, offset / g.blockLength, offset, length⟩ := by
        rw [BlockInfo.mk.injEq]
        exact ⟨rfl, hblock, hoffset, hlength.trans heq⟩
      rw [← hsame]
      exact List.mem_of_getElem? hb
    · cases hreceived
  · rintro ⟨p, hp, hb, rfl, rfl⟩
    obtain ⟨k, hget⟩ := List.mem_iff_getElem?.mp hb
    obtain ⟨hk, rfl⟩ := h.getElem?_blocks.mp hget
    obtain rfl := piece?_eq_some hp
    exact h.received?_block hp hk

theorem Sound.fits_iff (h : g.Sound) {b : Block} :
    b.Fits p.val.toNat (g.lengthOf p).toNat g.blockLength.toNat
      ↔ b.piece = p.val.toNat ∧ ∃ info ∈ g.blocks p, info.offset.toNat = b.offset
        ∧ info.size.toNat = b.data.bytes.length := by
  rw [h.blocks_eq]
  constructor
  · intro hfits
    obtain ⟨k, hoffset⟩ := hfits.aligned
    rw [Nat.mul_comm] at hoffset
    have hk : k < g.blockCount p := h.lt_blockCount_iff.mpr (hoffset ▸ hfits.inside)
    obtain ⟨-, hplace, hsize⟩ := h.toNat_block hk
    refine ⟨hfits.piece_eq, g.block p k, List.mem_map_of_mem (List.mem_range.mpr hk),
      hplace.trans hoffset.symm, hsize.trans ?_⟩
    rw [hfits.length_eq, hoffset]
    rfl
  · rintro ⟨hpiece, _, hinfo, hoffset, hlength⟩
    obtain ⟨k, hk, rfl⟩ := List.mem_map.mp hinfo
    rw [List.mem_range] at hk
    obtain ⟨-, hplace, hsize⟩ := h.toNat_block hk
    have hbegins : b.offset = k * g.blockLength.toNat := hoffset.symm.trans hplace
    refine ⟨hpiece, hbegins ▸ Nat.dvd_mul_left _ _, hbegins ▸ h.lt_blockCount_iff.mp hk, ?_⟩
    rw [hbegins]
    exact hlength.symm.trans hsize

/-- What is received passes for a block exactly if it is one of the blocks that are asked for, and
exactly if a fresh assembler takes it. -/
theorem received_iff_asked_iff_taken {total : UInt64} {pieceLength blockLength : UInt32}
    (h : make total pieceLength blockLength = .ok g) (index offset length : UInt32) :
    (∀ b, g.received? index offset length = some b
      ↔ ∃ p, g.piece? index = some p ∧ b ∈ g.blocks p ∧ b.offset = offset ∧ b.size = length)
    ∧ ∀ (sender : Identifier) (data : Buffer), data.bytes.length = length.toNat →
      ((g.received? index offset length).isSome = true ↔ ∃ p, g.piece? index = some p
        ∧ ((Assembler.make index.toNat (g.lengthOf p).toNat g.blockLength.toNat).add?
          ⟨sender, index.toNat, offset.toNat, data⟩).isSome = true) := by
  have hsound := sound_of_make h
  refine ⟨fun b => hsound.received?_eq_some_iff, fun sender data hdata => ?_⟩
  simp only [Option.isSome_iff_exists (x := g.received? _ _ _),
    Assembler.isSome_add?_make_iff hsound.blockLength_pos]
  constructor
  · rintro ⟨b, hb⟩
    obtain ⟨p, hp, hmem, rfl, rfl⟩ := hsound.received?_eq_some_iff.mp hb
    obtain rfl := piece?_eq_some hp
    exact ⟨⟨index⟩, hp, hsound.fits_iff.mpr ⟨rfl, b, hmem, rfl, hdata.symm⟩⟩
  · rintro ⟨p, hp, htaken⟩
    obtain rfl := piece?_eq_some hp
    obtain ⟨-, b, hmem, hoffset, hlength⟩ := hsound.fits_iff.mp htaken
    exact ⟨b, hsound.received?_eq_some_iff.mpr ⟨⟨index⟩, hp, hmem, UInt32.toNat_inj.mp hoffset,
      UInt32.toNat_inj.mp (hlength.trans hdata)⟩⟩

/-- The last block of a piece of three blocks, and an offset far behind the piece. -/
theorem received_iff_asked_iff_taken_shortEnd : ∃ g, make 23 10 4 = .ok g
    ∧ g.received? 1 8 2 = some ⟨⟨1⟩, 2, 8, 2⟩ ∧ ⟨⟨1⟩, 2, 8, 2⟩ ∈ g.blocks ⟨1⟩
    ∧ ((Assembler.make 1 10 4).add? ⟨.zero, 1, 8, ⟨2, [5, 6]⟩⟩).isSome = true
    ∧ g.received? 1 4294967292 4 = none
    ∧ ¬ ((Assembler.make 1 10 4).add? ⟨.zero, 1, 4294967292, ⟨4, [5, 6, 7, 8]⟩⟩).isSome = true := by
  have hmake : make 23 10 4 = .ok ⟨23, 10, 4, 2, 3, 3⟩ := by decide
  have hlast : received? ⟨23, 10, 4, 2, 3, 3⟩ 1 8 2 = some ⟨⟨1⟩, 2, 8, 2⟩ := by decide
  have hbehind : received? ⟨23, 10, 4, 2, 3, 3⟩ 1 4294967292 4 = none := by decide
  obtain ⟨hasked, htaken⟩ := received_iff_asked_iff_taken hmake 1 8 2
  obtain ⟨-, htaken'⟩ := received_iff_asked_iff_taken hmake 1 4294967292 4
  obtain ⟨p, hp, hmem, -, -⟩ := (hasked _).mp hlast
  obtain rfl := piece?_eq_some hp
  obtain ⟨q, hq, hadd⟩ := (htaken .zero ⟨2, [5, 6]⟩ rfl).mp (by rw [hlast]; rfl)
  obtain rfl := piece?_eq_some hq
  refine ⟨_, hmake, hlast, hmem, hadd, hbehind, fun hadd' => ?_⟩
  have hsome := (htaken' .zero ⟨4, [5, 6, 7, 8]⟩ rfl).mpr ⟨⟨1⟩, rfl, hadd'⟩
  rw [hbehind] at hsome
  cases hsome

end Geometry

end TorrentCore
