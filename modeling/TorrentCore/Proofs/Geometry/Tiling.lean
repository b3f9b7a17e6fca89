import TorrentCore.Proofs.Blocks

/-!
# Cutting without gaps

A torrent is cut into pieces and a piece into blocks in the same way: the `k`th part begins at `k`
times the length of a part and goes up to where the next one begins, or to the end of the whole if
that comes first. Such cuts lie one behind the other and leave no gap (`tiles_cuts`). What
`Geometry` computes on words for pieces and for blocks are these cuts, so both tile what they are
parts of.
-/

namespace TorrentCore

/-- Ranges, each given by where it begins and how long it is, that lie one behind the other from
`start` to `stop`. None of them is empty. -/
def Tiles (start : Nat) : List (Nat × Nat) → Nat → Prop
  | [], stop => start = stop
  | (offset, length) :: rest, stop => offset = start ∧ 0 < length ∧ Tiles (start + length) rest stop

def covering (ranges : List (Nat × Nat)) (position : Nat) : List (Nat × Nat) :=
  ranges.filter fun (offset, length) => offset ≤ position ∧ position < offset + length

theorem Tiles.covering_eq_nil {ranges : List (Nat × Nat)} {start stop position : Nat}
    (h : Tiles start ranges stop) (hposition : position < start) :
    covering ranges position = [] := by
  induction ranges generalizing start with
  | nil => rfl
  | cons range rest ih =>
      obtain ⟨hstart, -, hrest⟩ := h
      rw [covering, List.filter_cons_of_neg (by simp; omega)]
      exact ih hrest (by omega)

/-- There is no gap between them, and no overlap. -/
theorem Tiles.length_covering {ranges : List (Nat × Nat)} {start stop position : Nat}
    (h : Tiles start ranges stop) (hstart : start ≤ position) (hstop : position < stop) :
    (covering ranges position).length = 1 := by
  induction ranges generalizing start with
  | nil =>
      have : start = stop := h
      omega
  | cons range rest ih =>
      obtain ⟨hoffset, hlength, hrest⟩ := h
      by_cases hfirst : position < start + range.2
      · rw [covering, List.filter_cons_of_pos (by simp; omega), List.length_cons,
          ← covering, hrest.covering_eq_nil hfirst, List.length_nil]
      · rw [covering, List.filter_cons_of_neg (by simp; omega)]
        exact ih hrest (by omega)

namespace Geometry

/-- Where the `k`th part of a whole begins, and how long it is. -/
def cut (total part k : Nat) : Nat × Nat := (k * part, min (total - k * part) part)

theorem tiles_cuts_from {total part count : Nat} (hpart : 0 < part) :
    ∀ k, k + count = cutCount total part →
      Tiles (min (k * part) total) ((List.range' k count).map (cut total part)) total := by
  induction count with
  | zero =>
      intro k hk
      have hdone : k < cutCount total part ↔ k * part < total := lt_cutCount_iff hpart
      show min (k * part) total = total
      omega
  | succ count ih =>
      intro k hk
      have hmore : k * part < total := (lt_cutCount_iff hpart).mp (by omega)
      have hrest := ih (k + 1) (by omega)
      rw [List.range'_succ, List.map_cons]
      refine ⟨?_, ?_, ?_⟩
      · show k * part = _
        omega
      · show 0 < min (total - k * part) part
        omega
      · have hnext : min (k * part) total + min (total - k * part) part
            = min ((k + 1) * part) total := by
          rw [Nat.succ_mul]
          omega
        show Tiles (min (k * part) total + min (total - k * part) part) _ total
        rw [hnext]
        exact hrest

theorem tiles_cuts {total part : Nat} (hpart : 0 < part) :
    Tiles 0 ((List.range (cutCount total part)).map (cut total part)) total := by
  have h := tiles_cuts_from hpart 0 (Nat.zero_add (cutCount total part))
  rwa [Nat.zero_mul, Nat.zero_min, ← List.range_eq_range'] at h

variable {g : Geometry}

/-! ### Pieces -/

def pieceRange (g : Geometry) (p : PieceIndex) : Nat × Nat :=
  ((g.offsetOf p).toNat, (g.lengthOf p).toNat)

def pieces (g : Geometry) : List PieceIndex :=
  (List.range g.pieceCount.toNat).map fun index => ⟨UInt32.ofNat index⟩

theorem Sound.pieceCount_eq_cutCount (h : g.Sound) :
    g.pieceCount.toNat = cutCount g.totalLength.toNat g.pieceLength.toNat := by
  have hpos := h.lastPieceLength_pos
  have hle := h.lastPieceLength_le
  rw [h.toNat_pieceCount, cutCount, h.total_eq]
  refine (Nat.div_eq_of_lt_le ?_ ?_).symm
  · rw [Nat.succ_mul]
    omega
  · rw [Nat.succ_mul, Nat.succ_mul]
    omega

theorem Sound.pieceRange_eq (h : g.Sound) {index : Nat} (hindex : index < g.pieceCount.toNat) :
    g.pieceRange ⟨UInt32.ofNat index⟩ = cut g.totalLength.toNat g.pieceLength.toNat index := by
  have hvalue := h.toNat_index hindex
  have hle := h.lastPieceLength_le
  rw [h.toNat_pieceCount] at hindex
  rw [pieceRange, toNat_offsetOf, hvalue, cut, h.total_eq, lengthOf]
  by_cases hlast : index = g.lastPiece.toNat
  · rw [if_pos (UInt32.toNat_inj.mp (hvalue.trans hlast)), hlast]
    congr 1
    omega
  · have hless : index + 1 ≤ g.lastPiece.toNat := by omega
    have hbefore := Nat.mul_le_mul_right g.pieceLength.toNat hless
    rw [Nat.succ_mul] at hbefore
    rw [if_neg fun he => hlast (hvalue.symm.trans (congrArg UInt32.toNat he))]
    congr 1
    omega

theorem Sound.tiles_pieces (h : g.Sound) :
    Tiles 0 (g.pieces.map g.pieceRange) g.totalLength.toNat := by
  have hranges : g.pieces.map g.pieceRange = (List.range g.pieceCount.toNat).map
      (cut g.totalLength.toNat g.pieceLength.toNat) := by
    rw [pieces, List.map_map]
    exact List.map_congr_left fun index hindex => h.pieceRange_eq (List.mem_range.mp hindex)
  rw [hranges, h.pieceCount_eq_cutCount]
  exact tiles_cuts h.pieceLength_pos

theorem Sound.mem_pieces_iff (h : g.Sound) {p : PieceIndex} :
    p ∈ g.pieces ↔ g.piece? p.val = some p := by
  constructor
  · intro hp
    obtain ⟨index, hindex, rfl⟩ := List.mem_map.mp hp
    exact h.piece?_eq (List.mem_range.mp hindex)
  · intro hp
    refine List.mem_map.mpr ⟨p.val.toNat, List.mem_range.mpr ?_, ?_⟩
    · rw [h.toNat_pieceCount]
      exact Nat.lt_succ_of_le (toNat_le_lastPiece hp)
    · rw [UInt32.ofNat_toNat]

/-- The pieces of a torrent, from its first byte to its last. -/
structure PiecesTile (g : Geometry) (total : Nat) : Prop where
  mem_iff : ∀ p, p ∈ g.pieces ↔ g.piece? p.val = some p
  length_eq : g.pieces.length = g.pieceCount.toNat
  tiles : Tiles 0 (g.pieces.map g.pieceRange) total
  once : ∀ position < total, (covering (g.pieces.map g.pieceRange) position).length = 1
  first : g.offsetOf ⟨0⟩ = 0
  next : ∀ index, index + 1 < g.pieceCount.toNat →
    g.stop index = (g.offsetOf ⟨UInt32.ofNat (index + 1)⟩).toNat
  last : g.stop g.lastPiece.toNat = total
  pos : ∀ p, 0 < g.lengthOf p

theorem Sound.piecesTile (h : g.Sound) : g.PiecesTile g.totalLength.toNat where
  mem_iff _ := h.mem_pieces_iff
  length_eq := by rw [pieces, List.length_map, List.length_range]
  tiles := h.tiles_pieces
  once position hposition := h.tiles_pieces.length_covering (Nat.zero_le _) hposition
  first := by
    apply UInt64.toNat_inj.mp
    rw [toNat_offsetOf]
    exact Nat.zero_mul _
  next index hnext := by
    have hvalue := h.toNat_index hnext
    rw [h.toNat_pieceCount] at hnext
    rw [h.stop_eq (by rw [h.toNat_pieceCount]; omega), if_neg (by omega), toNat_offsetOf, hvalue]
  last := by
    rw [h.stop_eq (by rw [h.toNat_pieceCount]; omega), if_pos rfl]
  pos p := UInt32.lt_iff_toNat_lt.mpr (h.size_pos p)

/-! ### Blocks -/

def blockRange (b : BlockInfo) : Nat × Nat := (b.offset.toNat, b.size.toNat)

theorem Sound.blockRange_eq (h : g.Sound) {p : PieceIndex} {k : Nat} (hk : k < g.blockCount p) :
    blockRange (g.block p k) = cut (g.size p) g.blockLength.toNat k := by
  obtain ⟨-, hoffset, hsize⟩ := h.toNat_block hk
  rw [blockRange, hoffset, hsize, cut]

theorem Sound.tiles_blocks (h : g.Sound) (p : PieceIndex) :
    Tiles 0 ((g.blocks p).map blockRange) (g.size p) := by
  have hranges : (g.blocks p).map blockRange
      = (List.range (g.blockCount p)).map (cut (g.size p) g.blockLength.toNat) := by
    rw [h.blocks_eq, List.map_map]
    exact List.map_congr_left fun k hk => h.blockRange_eq (List.mem_range.mp hk)
  rw [hranges]
  exact tiles_cuts h.blockLength_pos

theorem Sound.length_blocks (h : g.Sound) (p : PieceIndex) :
    (g.blocks p).length = g.blockCount p := by
  rw [h.blocks_eq, List.length_map, List.length_range]

theorem Sound.getElem?_blocks (h : g.Sound) {p : PieceIndex} {k : Nat} {b : BlockInfo} :
    (g.blocks p)[k]? = some b ↔ k < g.blockCount p ∧ b = g.block p k := by
  rw [h.blocks_eq, List.getElem?_map]
  by_cases hk : k < g.blockCount p
  · simp [hk, eq_comm]
  · simp [hk]

theorem Sound.exists_last (h : g.Sound) (p : PieceIndex) :
    ∃ last, g.blockCount p = last + 1
      ∧ g.blocks p = (List.range last).map (g.block p) ++ [g.block p last] := by
  have hpos : 0 < g.blockCount p := by
    rw [h.lt_blockCount_iff, Nat.zero_mul]
    exact h.size_pos p
  refine ⟨g.blockCount p - 1, by omega, ?_⟩
  rw [h.blocks_eq, ← List.map_singleton, ← List.map_append, ← List.range_succ]
  congr 2
  omega

theorem Sound.size_block_of_lt (h : g.Sound) {p : PieceIndex} {k : Nat}
    (hk : k + 1 < g.blockCount p) : (g.block p k).size = g.blockLength := by
  obtain ⟨-, -, hsize⟩ := h.toNat_block (Nat.lt_of_succ_lt hk)
  have hnext := h.lt_blockCount_iff.mp hk
  apply UInt32.toNat_inj.mp
  rw [Nat.succ_mul] at hnext
  omega

theorem Sound.size_block (h : g.Sound) {p : PieceIndex} {k : Nat} (hk : k < g.blockCount p) :
    1 ≤ (g.block p k).size ∧ (g.block p k).size ≤ g.blockLength := by
  obtain ⟨-, -, hsize⟩ := h.toNat_block hk
  have hless := h.lt_blockCount_iff.mp hk
  have hpos := h.blockLength_pos
  rw [UInt32.le_iff_toNat_le, UInt32.le_iff_toNat_le, hsize, UInt32.toNat_one]
  omega

theorem walk_eq_take (g : Geometry) {limit enough : Nat} (hle : limit ≤ enough) (c : Cursor) :
    g.walk limit c = (g.walk enough c).take limit := by
  induction limit generalizing enough c with
  | zero => rw [List.take_zero, walk]
  | succ limit ih =>
      obtain ⟨more, rfl⟩ : ∃ more, enough = more + 1 := ⟨enough - 1, by omega⟩
      rw [walk, walk]
      cases g.next? c with
      | none => rfl
      | some step =>
          have hrest := @ih more (by omega) step.2
          exact congrArg (step.1 :: ·) hrest

theorem Sound.firstBlocks_eq (h : g.Sound) (p : PieceIndex) (limit : Nat) :
    g.firstBlocks p limit = (g.blocks p).take limit := by
  rcases Nat.le_total limit (g.lengthOf p).toNat with hless | hmore
  · exact g.walk_eq_take hless _
  · have hall : g.firstBlocks p limit = g.blocks p :=
      (h.walk_eq (before_start g p) hmore).trans (h.walk_eq (before_start g p) (Nat.le_refl _)).symm
    have hfew : g.blockCount p ≤ (g.lengthOf p).toNat := cutCount_le h.blockLength_pos
    rw [hall, List.take_of_length_le (by rw [h.length_blocks]; omega)]

theorem Sound.blockSize?_eq (h : g.Sound) (p : PieceIndex) (k : UInt32) :
    g.blockSize? p k = (g.blocks p)[k.toNat]?.map BlockInfo.size := by
  have hcount := h.toNat_blocksIn p
  rw [h.blocks_eq, List.getElem?_map]
  by_cases hk : k.toNat < g.blockCount p
  · obtain ⟨hblock, -, -⟩ := h.toNat_block hk
    have hname : (g.block p k.toNat).block = k := UInt32.toNat_inj.mp hblock
    have hsize := h.blockSize?_block hk
    rw [hname] at hsize
    rw [hsize, List.getElem?_range hk]
    rfl
  · have hbehind : g.blocksIn p ≤ k := by
      rw [UInt32.le_iff_toNat_le]
      omega
    rw [blockSize?, if_pos hbehind, List.getElem?_eq_none (by rw [List.length_range]; omega)]
    rfl

theorem blockLength_of_make {total : UInt64} {pieceLength blockLength : UInt32}
    (h : make total pieceLength blockLength = .ok g) :
    g.pieceLength = pieceLength ∧ g.blockLength = min blockLength pieceLength
      ∧ g.maxBlocksPerPiece
        = (ceilDiv g.pieceLength.toUInt64 g.blockLength.toUInt64).toUInt32 := by
  unfold make at h
  simp only at h
  repeat' split at h
  all_goals cases h
  exact ⟨rfl, rfl, rfl⟩

theorem blocksIn_le_of_make {total : UInt64} {pieceLength blockLength : UInt32}
    (h : make total pieceLength blockLength = .ok g) (p : PieceIndex) :
    g.blocksIn p ≤ g.maxBlocksPerPiece := by
  have hsound := sound_of_make h
  obtain ⟨-, -, hmax⟩ := blockLength_of_make h
  rw [UInt32.le_iff_toNat_le, hsound.toNat_blocksIn, hmax,
    toNat_ceilDiv_toUInt32 hsound.pieceLength_pos hsound.blockLength_pos]
  have hlength := hsound.lengthOf_le p
  exact Nat.div_le_div_right (by rw [size]; omega)

/-- The blocks of a piece, from its first byte to its last. -/
structure BlocksTile (g : Geometry) (p : PieceIndex) : Prop where
  length_eq : (g.blocks p).length = (g.blocksIn p).toNat
  /-- After the last block there is none, however many are asked for. -/
  firstBlocks_eq : ∀ limit, g.firstBlocks p limit = (g.blocks p).take limit
  block_eq : ∀ k (b : BlockInfo), (g.blocks p)[k]? = some b → b.piece = p ∧ b.block.toNat = k
  tiles : Tiles 0 ((g.blocks p).map blockRange) (g.lengthOf p).toNat
  once : ∀ position < (g.lengthOf p).toNat,
    (covering ((g.blocks p).map blockRange) position).length = 1
  full : ∀ b ∈ (g.blocks p).dropLast, b.size = g.blockLength
  last : ∃ b, (g.blocks p).getLast? = some b ∧ 1 ≤ b.size ∧ b.size ≤ g.blockLength
  blockSize?_eq : ∀ k, g.blockSize? p k = (g.blocks p)[k.toNat]?.map BlockInfo.size
  blocksIn_le : g.blocksIn p ≤ g.maxBlocksPerPiece

theorem blocksTile_of_make {total : UInt64} {pieceLength blockLength : UInt32}
    (h : make total pieceLength blockLength = .ok g) (p : PieceIndex) : g.BlocksTile p := by
  have hsound := sound_of_make h
  obtain ⟨last, hcount, hblocks⟩ := hsound.exists_last p
  refine ⟨?_, hsound.firstBlocks_eq p, ?_, hsound.tiles_blocks p, ?_, ?_, ?_,
    hsound.blockSize?_eq p, blocksIn_le_of_make h p⟩
  · rw [hsound.length_blocks, hsound.toNat_blocksIn]
  · intro k b hb
    obtain ⟨hk, rfl⟩ := hsound.getElem?_blocks.mp hb
    exact ⟨rfl, (hsound.toNat_block hk).1⟩
  · intro position hposition
    exact (hsound.tiles_blocks p).length_covering (Nat.zero_le _) hposition
  · intro b hb
    rw [hblocks, List.dropLast_concat] at hb
    obtain ⟨k, hk, rfl⟩ := List.mem_map.mp hb
    rw [List.mem_range] at hk
    exact hsound.size_block_of_lt (by omega)
  · refine ⟨g.block p last, ?_, hsound.size_block (by omega)⟩
    rw [hblocks, List.getLast?_concat]

/-- Whatever lengths are accepted, the pieces tile the torrent, and the blocks of every piece tile
the piece. -/
theorem tile_of_make {total : UInt64} {pieceLength blockLength : UInt32}
    (h : make total pieceLength blockLength = .ok g) :
    g.PiecesTile total.toNat ∧ ∀ p, g.BlocksTile p := by
  refine ⟨?_, blocksTile_of_make h⟩
  rw [← totalLength_of_make h]
  exact (sound_of_make h).piecesTile

/-- The last piece is shorter than a block, and the others end with a short one. -/
theorem tile_of_make_shortEnds : ∃ g, make 23 10 4 = .ok g
    ∧ g.pieces.map g.pieceRange = [(0, 10), (10, 10), (20, 3)]
    ∧ (g.blocks ⟨1⟩).map blockRange = [(0, 4), (4, 4), (8, 2)]
    ∧ (g.blocks ⟨2⟩).map blockRange = [(0, 3)]
    ∧ (covering (g.pieces.map g.pieceRange) 20).length = 1
    ∧ (covering ((g.blocks ⟨1⟩).map blockRange) 8).length = 1
    ∧ g.blockSize? ⟨1⟩ 2 = some 2 ∧ g.blockSize? ⟨1⟩ 3 = none := by
  have hmake : make 23 10 4 = .ok ⟨23, 10, 4, 2, 3, 3⟩ := by decide
  obtain ⟨hpieces, hblocks⟩ := tile_of_make hmake
  have hsize := (hblocks ⟨1⟩).blockSize?_eq
  exact ⟨_, hmake, by decide, by decide, by decide, hpieces.once 20 (by decide),
    (hblocks ⟨1⟩).once 8 (by decide), (hsize 2).trans (by decide), (hsize 3).trans (by decide)⟩

end Geometry

end TorrentCore
