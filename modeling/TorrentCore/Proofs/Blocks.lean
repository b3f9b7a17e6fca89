import TorrentCore.Proofs.Geometry
import TorrentCore.Proofs.Storage

/-!
# The blocks of a piece

The blocks that a walk over a piece comes by, those that a peer may send, and the slots of an
assembler are three computations of the same thing: the `k`th block of a piece begins at `k` times
the block length and goes up to the next one or to the end of the piece. `block` says this once,
in plain numbers, and each of the computations is compared with it. Joined together, what stands in
storage at the places of the blocks is what stands at the place of the piece.
-/

namespace TorrentCore

theorem UInt32.toNat_min (a b : UInt32) : (min a b).toNat = min a.toNat b.toNat := by
  show (if a ≤ b then a else b).toNat = _
  split
  · next h => rw [Nat.min_eq_left (UInt32.le_iff_toNat_le.mp h)]
  · next h =>
    rw [UInt32.le_iff_toNat_le] at h
    rw [Nat.min_eq_right (by omega)]

namespace Geometry

def size (g : Geometry) (p : PieceIndex) : Nat := (g.lengthOf p).toNat

def blockCount (g : Geometry) (p : PieceIndex) : Nat :=
  (g.size p + g.blockLength.toNat - 1) / g.blockLength.toNat

def block (g : Geometry) (p : PieceIndex) (k : Nat) : BlockInfo where
  piece := p
  block := UInt32.ofNat k
  offset := UInt32.ofNat (k * g.blockLength.toNat)
  size := UInt32.ofNat (min (g.size p - k * g.blockLength.toNat) g.blockLength.toNat)

variable {g : Geometry} {p : PieceIndex} {k : Nat}

theorem Sound.lt_blockCount_iff (h : g.Sound) :
    k < g.blockCount p ↔ k * g.blockLength.toNat < g.size p :=
  lt_cutCount_iff h.blockLength_pos

theorem size_lt (g : Geometry) (p : PieceIndex) : g.size p < 4294967296 := (g.lengthOf p).toNat_lt

theorem Sound.toNat_block (h : g.Sound) (hk : k < g.blockCount p) :
    (g.block p k).block.toNat = k ∧ (g.block p k).offset.toNat = k * g.blockLength.toNat
      ∧ (g.block p k).size.toNat
        = min (g.size p - k * g.blockLength.toNat) g.blockLength.toNat := by
  have hlt := g.size_lt p
  have hless := h.lt_blockCount_iff.mp hk
  have hk' : k ≤ k * g.blockLength.toNat := Nat.le_mul_of_pos_right k h.blockLength_pos
  refine ⟨UInt32.toNat_ofNat_of_lt' ?_, UInt32.toNat_ofNat_of_lt' ?_, UInt32.toNat_ofNat_of_lt' ?_⟩
  · show k < 4294967296
    omega
  · show _ < 4294967296
    omega
  · show _ < 4294967296
    omega

/-! ### The walk -/

structure Cursor.Before (g : Geometry) (p : PieceIndex) (k : Nat) (c : Cursor) : Prop where
  piece_eq : c.piece = p
  remaining_eq : c.remaining.toNat = g.size p - k * g.blockLength.toNat
  block_eq : c.remaining ≠ 0 → c.block = (g.block p k).block
  offset_eq : c.remaining ≠ 0 → c.offset = (g.block p k).offset

theorem before_start (g : Geometry) (p : PieceIndex) : (g.start p).Before g p 0 where
  piece_eq := rfl
  remaining_eq := by
    rw [Nat.zero_mul, Nat.sub_zero]
    rfl
  block_eq := fun _ => rfl
  offset_eq := fun _ => by
    show _ = UInt32.ofNat (0 * g.blockLength.toNat)
    rw [Nat.zero_mul]
    rfl

theorem Sound.next?_eq (h : g.Sound) {c : Cursor} (hc : c.Before g p k) :
    (g.blockCount p ≤ k ∧ g.next? c = none)
      ∨ (k < g.blockCount p ∧ ∃ rest, g.next? c = some (g.block p k, rest)
        ∧ rest.Before g p (k + 1) ∧ rest.remaining.toNat < c.remaining.toNat) := by
  have hremaining := hc.remaining_eq
  have hcount := h.lt_blockCount_iff (p := p) (k := k)
  have hpos := h.blockLength_pos
  unfold next?
  by_cases hdone : c.remaining = 0
  · left
    rw [if_pos hdone]
    rw [hdone, UInt32.toNat_zero] at hremaining
    exact ⟨by omega, rfl⟩
  right
  have hrest : 0 < c.remaining.toNat := Nat.pos_of_ne_zero fun he =>
    hdone (UInt32.toNat_inj.mp he)
  have hk : k < g.blockCount p := hcount.mpr (by omega)
  obtain ⟨hblock, hoffset, hsize⟩ := h.toNat_block hk
  have hmin : (min c.remaining g.blockLength).toNat
      = min (g.size p - k * g.blockLength.toNat) g.blockLength.toNat := by
    rw [UInt32.toNat_min, hremaining]
  have hsize_eq : min c.remaining g.blockLength = (g.block p k).size :=
    UInt32.toNat_inj.mp (hmin.trans hsize.symm)
  have hleft : (c.remaining - min c.remaining g.blockLength).toNat
      = g.size p - (k + 1) * g.blockLength.toNat := by
    rw [UInt32.toNat_sub_of_le, hmin, hremaining, Nat.succ_mul]
    · omega
    · rw [UInt32.le_iff_toNat_le, hmin, hremaining]
      exact Nat.min_le_left _ _
  have hnext : (c.remaining - min c.remaining g.blockLength) ≠ 0 → k + 1 < g.blockCount p := by
    intro hmore
    rw [h.lt_blockCount_iff]
    have hmore' : (c.remaining - min c.remaining g.blockLength).toNat ≠ 0 := fun he =>
      hmore (UInt32.toNat_inj.mp he)
    omega
  rw [if_neg hdone]
  refine ⟨hk, ⟨c.piece, c.block + 1, c.offset + min c.remaining g.blockLength,
    c.remaining - min c.remaining g.blockLength⟩, ?_,
    ⟨hc.piece_eq, hleft, fun hmore => ?_, fun hmore => ?_⟩, ?_⟩
  · rw [hc.piece_eq, hc.block_eq hdone, hc.offset_eq hdone, hsize_eq]
    rfl
  · -- There is one more block, so neither its number nor its place wraps.
    obtain ⟨hblock', -, -⟩ := h.toNat_block (hnext hmore)
    have hbound := (g.block p (k + 1)).block.toNat_lt
    show c.block + 1 = _
    apply UInt32.toNat_inj.mp
    rw [hc.block_eq hdone, UInt32.toNat_add, hblock, hblock']
    rw [hblock'] at hbound
    exact Nat.mod_eq_of_lt hbound
  · obtain ⟨-, hoffset', -⟩ := h.toNat_block (hnext hmore)
    have hbound := (g.block p (k + 1)).offset.toNat_lt
    have hfull := h.lt_blockCount_iff.mp (hnext hmore)
    show c.offset + min c.remaining g.blockLength = _
    apply UInt32.toNat_inj.mp
    rw [hc.offset_eq hdone, UInt32.toNat_add, hmin, hoffset, hoffset']
    rw [hoffset'] at hbound
    rw [Nat.succ_mul] at hbound hfull ⊢
    omega
  · show (c.remaining - min c.remaining g.blockLength).toNat < c.remaining.toNat
    rw [hleft, Nat.succ_mul]
    omega

theorem Sound.walk_eq (h : g.Sound) {limit : Nat} {c : Cursor} (hc : c.Before g p k)
    (hlimit : c.remaining.toNat ≤ limit) :
    g.walk limit c = (List.range' k (g.blockCount p - k)).map (g.block p) := by
  induction limit generalizing k c with
  | zero =>
      have hcount := h.lt_blockCount_iff (p := p) (k := k)
      have hremaining := hc.remaining_eq
      have hdone : g.blockCount p - k = 0 := by omega
      rw [hdone, walk]
      rfl
  | succ limit ih =>
      rcases h.next?_eq hc with ⟨hdone, hnext⟩ | ⟨hk, rest, hnext, hrest, hless⟩
      · rw [Nat.sub_eq_zero_of_le hdone, walk, hnext]
        rfl
      · have hone : g.blockCount p - k = (g.blockCount p - (k + 1)) + 1 := by omega
        rw [walk, hnext, hone, List.range'_succ, List.map_cons]
        exact congrArg _ (ih hrest (by omega))

theorem Sound.blocks_eq (h : g.Sound) (p : PieceIndex) :
    g.blocks p = (List.range (g.blockCount p)).map (g.block p) := by
  have hwalk := h.walk_eq (before_start g p) (Nat.le_refl _)
  rw [Nat.sub_zero, ← List.range_eq_range'] at hwalk
  exact hwalk

/-! ### What a peer may send -/

theorem Sound.size_pos (h : g.Sound) (p : PieceIndex) : 0 < g.size p := by
  unfold size lengthOf
  split
  · exact h.lastPieceLength_pos
  · exact h.pieceLength_pos

theorem toNat_ceilDiv_toUInt32 {total element : UInt32} (htotal : 0 < total.toNat)
    (helement : 0 < element.toNat) :
    (ceilDiv total.toUInt64 element.toUInt64).toUInt32.toNat
      = cutCount total.toNat element.toNat := by
  have hlt := total.toNat_lt
  have hfew : cutCount total.toNat element.toNat ≤ total.toNat := cutCount_le helement
  rw [UInt64.toNat_toUInt32,
    toNat_ceilDiv (toUInt64_ne_zero htotal) (toUInt64_ne_zero helement), UInt32.toNat_toUInt64,
    UInt32.toNat_toUInt64]
  exact Nat.mod_eq_of_lt (by omega)

theorem Sound.toNat_blocksIn (h : g.Sound) (p : PieceIndex) :
    (g.blocksIn p).toNat = g.blockCount p :=
  toNat_ceilDiv_toUInt32 (h.size_pos p) h.blockLength_pos

theorem Sound.blockSize?_block (h : g.Sound) (hk : k < g.blockCount p) :
    g.blockSize? p (g.block p k).block = some (g.block p k).size := by
  obtain ⟨hblock, -, hsize⟩ := h.toNat_block hk
  have hless := h.lt_blockCount_iff.mp hk
  have hexists : ¬ g.blocksIn p ≤ (g.block p k).block := by
    rw [UInt32.le_iff_toNat_le, h.toNat_blocksIn, hblock]
    omega
  have hplace : ((g.block p k).block * g.blockLength).toNat = k * g.blockLength.toNat := by
    have hbound := g.size_lt p
    rw [UInt32.toNat_mul, hblock]
    exact Nat.mod_eq_of_lt (by omega)
  rw [blockSize?, if_neg hexists, Option.some.injEq]
  apply UInt32.toNat_inj.mp
  rw [UInt32.toNat_min, UInt32.toNat_sub_of_le, hplace, hsize, Nat.min_comm]
  · rfl
  · rw [UInt32.le_iff_toNat_le, hplace]
    exact Nat.le_of_lt hless

theorem Sound.offset_block (h : g.Sound) (hk : k < g.blockCount p) :
    (g.block p k).offset % g.blockLength = 0
      ∧ (g.block p k).offset / g.blockLength = (g.block p k).block := by
  obtain ⟨hblock, hoffset, -⟩ := h.toNat_block hk
  constructor
  · apply UInt32.toNat_inj.mp
    rw [UInt32.toNat_mod, hoffset, Nat.mul_mod_left]
    rfl
  · apply UInt32.toNat_inj.mp
    rw [UInt32.toNat_div, hoffset, hblock, Nat.mul_div_cancel k h.blockLength_pos]

theorem Sound.received?_block (h : g.Sound) (hp : g.piece? p.val = some p)
    (hk : k < g.blockCount p) :
    g.received? p.val (g.block p k).offset (g.block p k).size = some (g.block p k) := by
  obtain ⟨hbegins, hnumber⟩ := h.offset_block hk
  rw [received?, hp]
  simp only [ne_eq, hbegins, not_true_eq_false, if_false, hnumber, h.blockSize?_block hk, if_true]
  rfl

/-! ### The blocks in storage -/

theorem toNat_le_lastPiece (hp : g.piece? p.val = some p) : p.val.toNat ≤ g.lastPiece.toNat := by
  unfold piece? at hp
  split at hp
  · cases hp
  next hle =>
  rw [UInt32.lt_iff_toNat_lt] at hle
  omega

theorem Sound.offsetOf_add_size_le (h : g.Sound) (hp : g.piece? p.val = some p) :
    (g.offsetOf p).toNat + g.size p ≤ g.totalLength.toNat := by
  have hindex := toNat_le_lastPiece hp
  rw [toNat_offsetOf, h.total_eq, size, lengthOf]
  split
  · next hlast => exact Nat.le_of_eq (by rw [hlast])
  · next hinner =>
    have hless : p.val.toNat + 1 ≤ g.lastPiece.toNat :=
      Nat.lt_of_le_of_ne hindex fun he => hinner (UInt32.toNat_inj.mp he)
    have hproduct := Nat.mul_le_mul_right g.pieceLength.toNat hless
    rw [Nat.succ_mul] at hproduct
    omega

end Geometry

theorem Geometry.Sound.flatten_blocks {g : Geometry} (h : g.Sound) (p : PieceIndex)
    (bytes : Bytes) (start : Nat) :
    ((List.range (g.blockCount p)).map fun k => bytes.slice (start + k * g.blockLength.toNat)
        (min (g.size p - k * g.blockLength.toNat) g.blockLength.toNat)).flatten
      = bytes.slice start (g.size p) := by
  have hall : ¬ g.blockCount p * g.blockLength.toNat < g.size p := fun hless =>
    Nat.lt_irrefl _ (h.lt_blockCount_iff.mpr hless)
  rw [Bytes.flatten_slices, Nat.min_eq_right (by omega)]

end TorrentCore
