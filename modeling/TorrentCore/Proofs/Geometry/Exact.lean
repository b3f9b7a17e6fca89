import TorrentCore.Proofs.Geometry.Tiling

/-!
# No word wraps

Words wrap when a result has no place in them, and lose their upper half when they are made
narrower. `Exact` computes a geometry once more, with operations that give nothing rather than such
a result, and nothing for a division by zero. For a geometry that was made it gives what `Geometry`
gives, with one exception.

A walk over a piece keeps three words. After `k` blocks they are `k`, where the `k`th block begins
and what is left of the piece (`Geometry.cursor`), and none of them is more than the length of the
piece. But the numbers of the blocks are drawn from a counter, which is always one ahead of what it
gives, and it is drawn from before it is seen that no block is left. A piece of as many blocks as
the largest word takes it over the edge (`neverWraps_fails`), and no other piece does.
-/

namespace TorrentCore

namespace Exact

/-! ### Words -/

/-- The word for a number, if there is one. -/
def word32 (n : Nat) : Option UInt32 := if n < 4294967296 then some (UInt32.ofNat n) else none

def word64 (n : Nat) : Option UInt64 :=
  if n < 18446744073709551616 then some (UInt64.ofNat n) else none

def add32 (a b : UInt32) : Option UInt32 := word32 (a.toNat + b.toNat)

def sub32 (a b : UInt32) : Option UInt32 := if b ≤ a then word32 (a.toNat - b.toNat) else none

def mul32 (a b : UInt32) : Option UInt32 := word32 (a.toNat * b.toNat)

def div32 (a b : UInt32) : Option UInt32 := if b = 0 then none else some (a / b)

def mod32 (a b : UInt32) : Option UInt32 := if b = 0 then none else some (a % b)

def add64 (a b : UInt64) : Option UInt64 := word64 (a.toNat + b.toNat)

def sub64 (a b : UInt64) : Option UInt64 := if b ≤ a then word64 (a.toNat - b.toNat) else none

def mul64 (a b : UInt64) : Option UInt64 := word64 (a.toNat * b.toNat)

def div64 (a b : UInt64) : Option UInt64 := if b = 0 then none else some (a / b)

def mod64 (a b : UInt64) : Option UInt64 := if b = 0 then none else some (a % b)

/-- The lower half of a word, if there is nothing in the upper one. -/
def narrow (w : UInt64) : Option UInt32 := word32 w.toNat

theorem word32_eq {n : Nat} {w : UInt32} (h : w.toNat = n) : word32 n = some w := by
  have hlt := w.toNat_lt
  rw [word32, if_pos (h ▸ hlt), ← h, UInt32.ofNat_toNat]

theorem word64_eq {n : Nat} {w : UInt64} (h : w.toNat = n) : word64 n = some w := by
  have hlt := w.toNat_lt
  rw [word64, if_pos (h ▸ hlt), ← h, UInt64.ofNat_toNat]

theorem add32_eq {a b : UInt32} (h : a.toNat + b.toNat < 4294967296) : add32 a b = some (a + b) :=
  word32_eq (by rw [UInt32.toNat_add, Nat.mod_eq_of_lt h])

theorem sub32_eq {a b : UInt32} (h : b.toNat ≤ a.toNat) : sub32 a b = some (a - b) := by
  have hle : b ≤ a := UInt32.le_iff_toNat_le.mpr h
  rw [sub32, if_pos hle]
  exact word32_eq (UInt32.toNat_sub_of_le _ _ hle)

theorem mul32_eq {a b : UInt32} (h : a.toNat * b.toNat < 4294967296) : mul32 a b = some (a * b) :=
  word32_eq (by rw [UInt32.toNat_mul, Nat.mod_eq_of_lt h])

theorem add64_eq {a b : UInt64} (h : a.toNat + b.toNat < 18446744073709551616) :
    add64 a b = some (a + b) :=
  word64_eq (by rw [UInt64.toNat_add, Nat.mod_eq_of_lt h])

theorem sub64_eq {a b : UInt64} (h : b.toNat ≤ a.toNat) : sub64 a b = some (a - b) := by
  have hle : b ≤ a := UInt64.le_iff_toNat_le.mpr h
  rw [sub64, if_pos hle]
  exact word64_eq (UInt64.toNat_sub_of_le _ _ hle)

theorem mul64_eq {a b : UInt64} (h : a.toNat * b.toNat < 18446744073709551616) :
    mul64 a b = some (a * b) :=
  word64_eq (by rw [UInt64.toNat_mul, Nat.mod_eq_of_lt h])

theorem narrow_eq {w : UInt64} (h : w.toNat < 4294967296) : narrow w = some w.toUInt32 :=
  word32_eq (by rw [UInt64.toNat_toUInt32, Nat.mod_eq_of_lt h])

/-! ### The geometry once more -/

def ceilDiv (a b : UInt64) : Option UInt64 := do
  let quotient ← div64 a b
  let rest ← mod64 a b
  if rest = 0 then some quotient else add64 quotient 1

def lastElementSize (total element : UInt64) : Option UInt64 := do
  let rest ← mod64 total element
  some (if rest = 0 then element else rest)

def isPowerOfTwo (w : UInt64) : Option Bool :=
  if w = 0 then some false
  else do
    let below ← sub64 w 1
    some ((w &&& below) == 0)

def make (totalLength : UInt64) (pieceLength blockLength : UInt32) :
    Option (Except GeometryError Geometry) :=
  if totalLength = 0 then some (.error .zeroLength)
  else if pieceLength = 0 then some (.error .zeroPieceLength)
  else do
    let power ← isPowerOfTwo blockLength.toUInt64
    if !power then some (.error (.blockLengthNotPowerOfTwo blockLength))
    else
      let block := min blockLength pieceLength
      let pieces ← ceilDiv totalLength pieceLength.toUInt64
      match narrow pieces with
      | none => some (.error .tooManyPieces)
      | some count =>
        let maxBlocks ← (ceilDiv pieceLength.toUInt64 block.toUInt64).bind narrow
        let lastPiece ← sub32 count 1
        let lastLength ← (lastElementSize totalLength pieceLength.toUInt64).bind narrow
        some (.ok ⟨totalLength, pieceLength, block, lastPiece, lastLength, maxBlocks⟩)

def pieceCount (g : Geometry) : Option UInt32 := add32 g.lastPiece 1

def bitfieldBytes (g : Geometry) : Option UInt64 := do
  let count ← pieceCount g
  ceilDiv count.toUInt64 8

def offsetOf (g : Geometry) (p : PieceIndex) : Option UInt64 :=
  mul64 p.val.toUInt64 g.pieceLength.toUInt64

def stop (g : Geometry) (p : PieceIndex) : Option UInt64 := do
  let offset ← offsetOf g p
  add64 offset (g.lengthOf p).toUInt64

def blocksIn (g : Geometry) (p : PieceIndex) : Option UInt32 :=
  (ceilDiv (g.lengthOf p).toUInt64 g.blockLength.toUInt64).bind narrow

def blockSize? (g : Geometry) (p : PieceIndex) (block : UInt32) : Option (Option UInt32) := do
  let count ← blocksIn g p
  if count ≤ block then some none
  else
    let offset ← mul32 block g.blockLength
    let rest ← sub32 (g.lengthOf p) offset
    some (some (min g.blockLength rest))

/-- What a counter gives and what it holds after that. It goes on before it gives anything. -/
def draw (counter : UInt32) : Option (UInt32 × UInt32) := do
  let ahead ← add32 counter 1
  some (counter, ahead)

def next? (g : Geometry) (c : Geometry.Cursor) :
    Option (Option (BlockInfo × Geometry.Cursor)) := do
  let (block, ahead) ← draw c.block
  if c.remaining = 0 then some none
  else
    let size := min c.remaining g.blockLength
    let offset ← add32 c.offset size
    let remaining ← sub32 c.remaining size
    some (some (⟨c.piece, block, c.offset, size⟩, ⟨c.piece, ahead, offset, remaining⟩))

def walk (g : Geometry) : Nat → Geometry.Cursor → Option (List BlockInfo)
  | 0, _ => some []
  | limit + 1, c => do
    match ← next? g c with
    | some (info, rest) => (walk g limit rest).map (info :: ·)
    | none => some []

def received? (g : Geometry) (index offset length : UInt32) : Option (Option BlockInfo) :=
  match g.piece? index with
  | none => some none
  | some p => do
    let rest ← mod32 offset g.blockLength
    if rest ≠ 0 then some none
    else
      let block ← div32 offset g.blockLength
      match ← blockSize? g p block with
      | none => some none
      | some size => some (if size = length then some ⟨p, block, offset, length⟩ else none)

/-! ### Lengths and numbers of pieces -/

variable {total element : UInt64}

theorem ceilDiv_eq (helement : element ≠ 0) :
    ceilDiv total element = some (TorrentCore.ceilDiv total element) := by
  rw [ceilDiv, div64, mod64, if_neg helement, if_neg helement, TorrentCore.ceilDiv]
  simp only [Option.bind_eq_bind, Option.bind_some]
  split
  · rfl
  · next hrest =>
    refine add64_eq ?_
    rw [UInt64.toNat_div]
    exact Geometry.quotient_succ_lt helement hrest

theorem lastElementSize_eq (helement : element ≠ 0) :
    lastElementSize total element = some (TorrentCore.lastElementSize total element) := by
  rw [lastElementSize, mod64, if_neg helement]
  rfl

theorem isPowerOfTwo_eq (w : UInt64) : isPowerOfTwo w = some (Geometry.isPowerOfTwo w) := by
  rw [isPowerOfTwo, Geometry.isPowerOfTwo]
  split
  · next hzero =>
    rw [hzero]
    rfl
  · next hnonzero =>
    have hpos : (1 : UInt64).toNat ≤ w.toNat :=
      Nat.pos_of_ne_zero fun he => hnonzero (UInt64.toNat_inj.mp he)
    rw [sub64_eq hpos, bne_iff_ne.mpr hnonzero]
    rfl

theorem narrow_ceilDiv {total element : UInt32} (htotal : 0 < total.toNat)
    (helement : 0 < element.toNat) :
    (ceilDiv total.toUInt64 element.toUInt64).bind narrow
      = some (TorrentCore.ceilDiv total.toUInt64 element.toUInt64).toUInt32 := by
  have hlt := total.toNat_lt
  have hfew : Geometry.cutCount total.toNat element.toNat ≤ total.toNat :=
    Geometry.cutCount_le helement
  rw [ceilDiv_eq (Geometry.toUInt64_ne_zero helement), Option.bind_some]
  refine narrow_eq ?_
  rw [Geometry.toNat_ceilDiv (Geometry.toUInt64_ne_zero htotal)
    (Geometry.toUInt64_ne_zero helement), UInt32.toNat_toUInt64, UInt32.toNat_toUInt64]
  omega

theorem make_eq (total : UInt64) (pieceLength blockLength : UInt32) :
    make total pieceLength blockLength = some (Geometry.make total pieceLength blockLength) := by
  unfold make Geometry.make
  split
  · rfl
  next htotal =>
  split
  · rfl
  next hpiece =>
  rw [isPowerOfTwo_eq, Option.bind_eq_bind, Option.bind_some]
  split
  · rfl
  next hpower =>
  have hpiece_pos : 0 < pieceLength.toNat := Nat.pos_of_ne_zero fun he =>
    hpiece (UInt32.toNat_inj.mp he)
  have hblock_pos : 0 < blockLength.toNat := Nat.pos_of_ne_zero fun he => by
    rw [UInt32.toNat_inj.mp (he.trans UInt32.toNat_zero.symm)] at hpower
    exact hpower (by decide)
  have hmin_pos : 0 < (min blockLength pieceLength).toNat := by
    rw [UInt32.toNat_min]
    omega
  have hpiece' := Geometry.toUInt64_ne_zero hpiece_pos
  have hlt := pieceLength.toNat_lt
  obtain ⟨hcount_pos, -, hlast_le, -⟩ := Geometry.toNat_ceilDiv_mul htotal hpiece'
  rw [UInt32.toNat_toUInt64] at hlast_le
  simp only [ceilDiv_eq hpiece', Option.bind_eq_bind, Option.bind_some,
    narrow_ceilDiv hpiece_pos hmin_pos, lastElementSize_eq hpiece']
  by_cases hmany : 4294967295 < TorrentCore.ceilDiv total pieceLength.toUInt64
  · have hwide := UInt64.lt_iff_toNat_lt.mp hmany
    have hnarrow : narrow (TorrentCore.ceilDiv total pieceLength.toUInt64) = none :=
      if_neg (Nat.not_lt.mpr hwide)
    rw [hnarrow, if_pos hmany]
  · have hfew : (TorrentCore.ceilDiv total pieceLength.toUInt64).toNat ≤ 4294967295 :=
      Nat.le_of_not_lt fun he => hmany (UInt64.lt_iff_toNat_lt.mpr he)
    have hcount : (1 : UInt32).toNat
        ≤ (TorrentCore.ceilDiv total pieceLength.toUInt64).toUInt32.toNat := by
      rw [UInt64.toNat_toUInt32, Nat.mod_eq_of_lt (Nat.lt_succ_of_le hfew)]
      exact hcount_pos
    rw [narrow_eq (Nat.lt_succ_of_le hfew), if_neg hmany]
    simp only [sub32_eq hcount, narrow_eq (Nat.lt_of_le_of_lt hlast_le hlt), Option.bind_some]

/-! ### Pieces and blocks -/

variable {g : Geometry} {p : PieceIndex} {k : Nat}

theorem pieceCount_eq (h : g.Sound) : pieceCount g = some g.pieceCount := add32_eq h.lastPiece_lt

theorem bitfieldBytes_eq (h : g.Sound) : bitfieldBytes g = some g.bitfieldBytes := by
  have height : (8 : UInt64) ≠ 0 := by decide
  rw [bitfieldBytes, pieceCount_eq h]
  exact ceilDiv_eq height

theorem offsetOf_eq (g : Geometry) (p : PieceIndex) : offsetOf g p = some (g.offsetOf p) := by
  have hproduct := Geometry.toNat_offsetOf g p
  have hlt := (g.offsetOf p).toNat_lt
  refine mul64_eq ?_
  rw [UInt32.toNat_toUInt64, UInt32.toNat_toUInt64, ← hproduct]
  exact hlt

theorem exists_stop (h : g.Sound) (hp : g.piece? p.val = some p) :
    ∃ stop, Exact.stop g p = some stop
      ∧ stop.toNat = (g.offsetOf p).toNat + (g.lengthOf p).toNat ∧ stop ≤ g.totalLength := by
  have hend := h.offsetOf_add_size_le hp
  have hlt := g.totalLength.toNat_lt
  have hlength : (g.lengthOf p).toUInt64.toNat = g.size p := UInt32.toNat_toUInt64 _
  have hsum : (g.offsetOf p).toNat + (g.lengthOf p).toUInt64.toNat < 18446744073709551616 := by
    omega
  have hstop : (g.offsetOf p + (g.lengthOf p).toUInt64).toNat
      = (g.offsetOf p).toNat + (g.lengthOf p).toNat := by
    rw [UInt64.toNat_add, Nat.mod_eq_of_lt hsum, UInt32.toNat_toUInt64]
  refine ⟨_, ?_, hstop, ?_⟩
  · rw [stop, offsetOf_eq]
    exact add64_eq hsum
  · rw [UInt64.le_iff_toNat_le, hstop]
    exact hend

theorem blocksIn_eq (h : g.Sound) (p : PieceIndex) : blocksIn g p = some (g.blocksIn p) :=
  narrow_ceilDiv (h.size_pos p) h.blockLength_pos

theorem blockSize?_eq (h : g.Sound) (p : PieceIndex) (block : UInt32) :
    blockSize? g p block = some (g.blockSize? p block) := by
  rw [blockSize?, blocksIn_eq h, Geometry.blockSize?]
  simp only [Option.bind_eq_bind, Option.bind_some]
  split
  · rfl
  next hblock =>
  have hbegins : block.toNat * g.blockLength.toNat < g.size p := by
    rw [UInt32.le_iff_toNat_le, h.toNat_blocksIn] at hblock
    exact h.lt_blockCount_iff.mp (Nat.lt_of_not_le hblock)
  have hlt := g.size_lt p
  have hplace : (block * g.blockLength).toNat = block.toNat * g.blockLength.toNat := by
    rw [UInt32.toNat_mul]
    exact Nat.mod_eq_of_lt (Nat.lt_trans hbegins hlt)
  have hrest : (block * g.blockLength).toNat ≤ (g.lengthOf p).toNat := by
    rw [hplace]
    exact Nat.le_of_lt hbegins
  simp only [mul32_eq (Nat.lt_trans hbegins hlt), sub32_eq hrest, Option.bind_some]

theorem received?_eq (h : g.Sound) (index offset length : UInt32) :
    received? g index offset length = some (g.received? index offset length) := by
  have hnonzero : ¬ g.blockLength = 0 := fun he => by
    have hpos := h.blockLength_pos
    rw [he] at hpos
    exact Nat.lt_irrefl 0 hpos
  rw [received?, Geometry.received?]
  cases g.piece? index with
  | none => rfl
  | some p =>
      simp only [mod32, div32, if_neg hnonzero, blockSize?_eq h, Option.bind_eq_bind,
        Option.bind_some]
      split
      · rfl
      · cases g.blockSize? p (offset / g.blockLength) <;> rfl

end Exact

/-! ### The walk -/

namespace Geometry

variable {g : Geometry} {p : PieceIndex} {k : Nat}

/-- Where a walk over a piece stands after `k` blocks. -/
def cursor (g : Geometry) (p : PieceIndex) (k : Nat) : Cursor where
  piece := p
  block := UInt32.ofNat k
  offset := UInt32.ofNat (min (k * g.blockLength.toNat) (g.size p))
  remaining := UInt32.ofNat (g.size p - k * g.blockLength.toNat)

/-- Until the blocks are counted, no word of a cursor is more than the length of the piece. -/
theorem Sound.toNat_cursor (h : g.Sound) (hk : k ≤ g.blockCount p) :
    k ≤ g.size p ∧ (g.cursor p k).block.toNat = k
      ∧ (g.cursor p k).offset.toNat = min (k * g.blockLength.toNat) (g.size p)
      ∧ (g.cursor p k).remaining.toNat = g.size p - k * g.blockLength.toNat := by
  have hlt := g.size_lt p
  have hfew : g.blockCount p ≤ g.size p := cutCount_le h.blockLength_pos
  refine ⟨by omega, UInt32.toNat_ofNat_of_lt' ?_, UInt32.toNat_ofNat_of_lt' ?_,
    UInt32.toNat_ofNat_of_lt' ?_⟩
  · show k < 4294967296
    omega
  · show _ < 4294967296
    omega
  · show _ < 4294967296
    omega

theorem start_eq_cursor (g : Geometry) (p : PieceIndex) : g.start p = g.cursor p 0 := by
  rw [start, cursor, Nat.zero_mul, Nat.zero_min, Nat.sub_zero, size, UInt32.ofNat_toNat]
  rfl

theorem Sound.remaining_cursor_ne_zero_iff (h : g.Sound) (hk : k ≤ g.blockCount p) :
    (g.cursor p k).remaining ≠ 0 ↔ k < g.blockCount p := by
  obtain ⟨-, -, -, hremaining⟩ := h.toNat_cursor hk
  rw [h.lt_blockCount_iff, ne_eq, ← UInt32.toNat_inj, hremaining, UInt32.toNat_zero]
  omega

theorem Sound.next?_cursor (h : g.Sound) (hk : k < g.blockCount p) :
    g.next? (g.cursor p k) = some (g.block p k, g.cursor p (k + 1)) := by
  have hless := h.lt_blockCount_iff.mp hk
  have hlt := g.size_lt p
  obtain ⟨-, hblock, hoffset, hremaining⟩ := h.toNat_cursor (Nat.le_of_lt hk)
  obtain ⟨hle', hblock', hoffset', hremaining'⟩ := h.toNat_cursor (Nat.succ_le_of_lt hk)
  obtain ⟨-, hplace, hsize⟩ := h.toNat_block hk
  have htaken : min (g.cursor p k).remaining g.blockLength = (g.block p k).size := by
    apply UInt32.toNat_inj.mp
    rw [UInt32.toNat_min, hremaining, hsize]
  have hbegins : (g.cursor p k).offset = (g.block p k).offset := by
    apply UInt32.toNat_inj.mp
    rw [hoffset, hplace, Nat.min_eq_left (Nat.le_of_lt hless)]
  rw [next?, if_neg ((h.remaining_cursor_ne_zero_iff (Nat.le_of_lt hk)).mpr hk)]
  simp only [htaken]
  refine congrArg some (Prod.ext ?_ ?_)
  · show BlockInfo.mk p _ _ _ = BlockInfo.mk p _ _ _
    rw [hbegins]
    rfl
  rw [Nat.succ_mul] at hoffset' hremaining'
  show Cursor.mk p _ _ _ = Cursor.mk p _ _ _
  congr 1 <;> apply UInt32.toNat_inj.mp
  · rw [UInt32.toNat_add, hblock]
    refine (Nat.mod_eq_of_lt ?_).trans hblock'.symm
    show k + 1 < 4294967296
    omega
  · rw [UInt32.toNat_add, hoffset, hsize]
    refine (Nat.mod_eq_of_lt ?_).trans (Eq.trans ?_ hoffset'.symm)
    · show _ < 4294967296
      omega
    · omega
  · rw [UInt32.toNat_sub_of_le, hremaining, hsize]
    · refine Eq.trans ?_ hremaining'.symm
      omega
    · rw [UInt32.le_iff_toNat_le, hremaining, hsize]
      exact Nat.min_le_left _ _

theorem Sound.next?_cursor_blockCount (h : g.Sound) (p : PieceIndex) :
    g.next? (g.cursor p (g.blockCount p)) = none := by
  have hdone : (g.cursor p (g.blockCount p)).remaining = 0 := by
    by_contra hmore
    exact Nat.lt_irrefl _ ((h.remaining_cursor_ne_zero_iff (Nat.le_refl _)).mp hmore)
  rw [next?, if_pos hdone]

end Geometry

namespace Exact

variable {g : Geometry} {p : PieceIndex} {k : Nat}

theorem draw_eq_none_iff {counter : UInt32} : draw counter = none ↔ counter = 4294967295 := by
  have hlt : counter.toNat < 4294967296 := counter.toNat_lt
  have hlast : counter = 4294967295 ↔ counter.toNat = 4294967295 := UInt32.toNat_inj.symm
  rw [hlast, draw, add32, UInt32.toNat_one, word32]
  split
  · next hnext =>
    refine ⟨fun hnone => ?_, fun hedge => absurd hnext (by omega)⟩
    cases hnone
  · next hedge => exact ⟨fun _ => by omega, fun _ => rfl⟩

theorem draw_eq {counter : UInt32} (h : counter.toNat < 4294967295) :
    draw counter = some (counter, counter + 1) := by
  have hnext : counter.toNat + (1 : UInt32).toNat < 4294967296 := by
    rw [UInt32.toNat_one]
    omega
  rw [draw, add32_eq hnext]
  rfl

theorem next?_cursor (h : g.Sound) (hk : k ≤ g.blockCount p) (hroom : k < 4294967295) :
    next? g (g.cursor p k) = some (g.next? (g.cursor p k)) := by
  obtain ⟨-, hblock, hoffset, hremaining⟩ := h.toNat_cursor hk
  have hlt := g.size_lt p
  rw [next?, draw_eq (hblock.symm ▸ hroom), Geometry.next?]
  simp only [Option.bind_eq_bind, Option.bind_some]
  split
  · rfl
  have htaken : (min (g.cursor p k).remaining g.blockLength).toNat
      = min (g.cursor p k).remaining.toNat g.blockLength.toNat := UInt32.toNat_min _ _
  have hplace : (g.cursor p k).offset.toNat
      + (min (g.cursor p k).remaining g.blockLength).toNat < 4294967296 := by
    omega
  have hrest : (min (g.cursor p k).remaining g.blockLength).toNat
      ≤ (g.cursor p k).remaining.toNat := by
    omega
  simp only [add32_eq hplace, sub32_eq hrest, Option.bind_some]

theorem next?_cursor_blockCount (h : g.Sound) (p : PieceIndex) :
    next? g (g.cursor p (g.blockCount p))
      = if g.blockCount p = 4294967295 then none else some none := by
  obtain ⟨hle, hblock, -, -⟩ := h.toNat_cursor (Nat.le_refl (g.blockCount p))
  have hlt : g.size p < 4294967296 := g.size_lt p
  split
  · next hfull =>
    have hedge : (g.cursor p (g.blockCount p)).block = 4294967295 :=
      UInt32.toNat_inj.mp (hblock.trans hfull)
    rw [next?, draw_eq_none_iff.mpr hedge]
    rfl
  · next hroom =>
    rw [next?_cursor h (Nat.le_refl _) (by omega), h.next?_cursor_blockCount p]

theorem walk_cursor (h : g.Sound) (limit : Nat) : ∀ k ≤ g.blockCount p,
    (limit ≤ g.blockCount p - k ∨ g.blockCount p ≠ 4294967295) →
      walk g limit (g.cursor p k) = some (g.walk limit (g.cursor p k)) := by
  have hlt : g.size p < 4294967296 := g.size_lt p
  have hfew : g.blockCount p ≤ g.size p := Geometry.cutCount_le h.blockLength_pos
  induction limit with
  | zero => exact fun k _ _ => rfl
  | succ limit ih =>
      intro k hk hshort
      rw [walk, next?_cursor h hk (by omega), Geometry.walk]
      rcases Nat.lt_or_eq_of_le hk with hmore | rfl
      · rw [h.next?_cursor hmore]
        simp only [Option.bind_eq_bind, Option.bind_some, ih (k + 1) hmore (by omega),
          Option.map_some]
      · rw [h.next?_cursor_blockCount p]
        rfl

end Exact

namespace Geometry

/-- Whatever is computed of a geometry up to the last block of a walk is computed exactly. -/
structure ComputedExactly (g : Geometry) : Prop where
  pieceCount : Exact.pieceCount g = some g.pieceCount
  bitfieldBytes : Exact.bitfieldBytes g = some g.bitfieldBytes
  offsetOf : ∀ p, Exact.offsetOf g p = some (g.offsetOf p)
  stop : ∀ p, g.piece? p.val = some p → ∃ stop, Exact.stop g p = some stop
    ∧ stop.toNat = (g.offsetOf p).toNat + (g.lengthOf p).toNat ∧ stop ≤ g.totalLength
  blocksIn : ∀ p, Exact.blocksIn g p = some (g.blocksIn p)
  blockSize? : ∀ p block, Exact.blockSize? g p block = some (g.blockSize? p block)
  received? : ∀ index offset length,
    Exact.received? g index offset length = some (g.received? index offset length)
  start : ∀ p, g.start p = g.cursor p 0
  cursor : ∀ p, ∀ k ≤ (g.blocksIn p).toNat, (g.cursor p k).block.toNat = k
    ∧ (g.cursor p k).offset.toNat + (g.cursor p k).remaining.toNat = (g.lengthOf p).toNat
  next? : ∀ p, ∀ k < (g.blocksIn p).toNat,
    Exact.next? g (g.cursor p k) = some (some (g.block p k, g.cursor p (k + 1)))
      ∧ g.next? (g.cursor p k) = some (g.block p k, g.cursor p (k + 1))
  walk : ∀ p limit, limit ≤ (g.blocksIn p).toNat →
    Exact.walk g limit (g.start p) = some (g.firstBlocks p limit)

/-- And so is the call after the last block of any piece there is. -/
structure NeverWraps (g : Geometry) : Prop extends ComputedExactly g where
  last : ∀ p, g.piece? p.val = some p →
    Exact.next? g (g.cursor p (g.blocksIn p).toNat) = some none

/-- As many blocks as the largest word, which is a piece as long as can be in blocks of one byte. -/
def IsLongest (g : Geometry) (p : PieceIndex) : Prop :=
  g.lengthOf p = 4294967295 ∧ g.blockLength = 1

variable {g : Geometry} {p : PieceIndex}

theorem Sound.computedExactly (h : g.Sound) : g.ComputedExactly where
  pieceCount := Exact.pieceCount_eq h
  bitfieldBytes := Exact.bitfieldBytes_eq h
  offsetOf := Exact.offsetOf_eq g
  stop _ hp := Exact.exists_stop h hp
  blocksIn := Exact.blocksIn_eq h
  blockSize? := Exact.blockSize?_eq h
  received? := Exact.received?_eq h
  start := g.start_eq_cursor
  cursor p k hk := by
    rw [h.toNat_blocksIn] at hk
    obtain ⟨-, hblock, hoffset, hremaining⟩ := h.toNat_cursor hk
    refine ⟨hblock, ?_⟩
    rw [hoffset, hremaining]
    show _ = g.size p
    omega
  next? p k hk := by
    rw [h.toNat_blocksIn] at hk
    have hnext := h.next?_cursor hk
    have hlt : g.size p < 4294967296 := g.size_lt p
    obtain ⟨hle, -⟩ := h.toNat_cursor (Nat.le_refl (g.blockCount p))
    exact ⟨hnext ▸ Exact.next?_cursor h (Nat.le_of_lt hk) (by omega), hnext⟩
  walk p limit hlimit := by
    rw [h.toNat_blocksIn] at hlimit
    rw [firstBlocks, start_eq_cursor]
    exact Exact.walk_cursor h limit 0 (Nat.zero_le _) (.inl hlimit)

theorem Sound.isLongest_iff (h : g.Sound) (p : PieceIndex) :
    g.IsLongest p ↔ g.blockCount p = 4294967295 := by
  have hlt : g.size p < 4294967296 := g.size_lt p
  have hpos := h.blockLength_pos
  have hlength : g.lengthOf p = 4294967295 ↔ g.size p = 4294967295 := UInt32.toNat_inj.symm
  have hone : g.blockLength = 1 ↔ g.blockLength.toNat = 1 := UInt32.toNat_inj.symm
  rw [IsLongest, hlength, hone]
  constructor
  · rintro ⟨hsize, hblock⟩
    rw [blockCount, hsize, hblock]
  · intro hcount
    have hall := h.lt_blockCount_iff (p := p) (k := 4294967294)
    rw [hcount] at hall
    have hbegins := hall.mp (by decide)
    have hblock : g.blockLength.toNat = 1 := by
      by_contra hmore
      have htwo : 4294967294 * 2 ≤ 4294967294 * g.blockLength.toNat :=
        Nat.mul_le_mul_left _ (by omega)
      omega
    rw [hblock] at hbegins
    exact ⟨by omega, hblock⟩

theorem Sound.neverWraps_iff (h : g.Sound) :
    g.NeverWraps ↔ ∀ p, g.piece? p.val = some p → ¬ g.IsLongest p := by
  constructor
  · intro hnever p hp hlongest
    have hlast := hnever.last p hp
    rw [h.toNat_blocksIn, Exact.next?_cursor_blockCount h,
      if_pos ((h.isLongest_iff p).mp hlongest)] at hlast
    cases hlast
  · refine fun hshort => ⟨h.computedExactly, fun p hp => ?_⟩
    rw [h.toNat_blocksIn, Exact.next?_cursor_blockCount h,
      if_neg fun hcount => hshort p hp ((h.isLongest_iff p).mpr hcount)]

/-- No word wraps or is cut off, neither in making a geometry nor in what is computed of it up to
the last block of a walk. The call after that is as good, unless the piece is as long as can be and
its blocks are of one byte. -/
theorem wraps_only_after_longest (total : UInt64) (pieceLength blockLength : UInt32) :
    Exact.make total pieceLength blockLength = some (make total pieceLength blockLength)
      ∧ ∀ g, make total pieceLength blockLength = .ok g → g.ComputedExactly
        ∧ (g.NeverWraps ↔ ∀ p, g.piece? p.val = some p → ¬ g.IsLongest p)
        ∧ ∀ p, g.next? (g.cursor p (g.blocksIn p).toNat) = none := by
  refine ⟨Exact.make_eq total pieceLength blockLength, fun g hmake => ?_⟩
  have h := sound_of_make hmake
  refine ⟨h.computedExactly, h.neverWraps_iff, fun p => ?_⟩
  rw [h.toNat_blocksIn]
  exact h.next?_cursor_blockCount p

/-- As many pieces as there can be, each as long as can be: in blocks of two bytes nothing wraps,
and in blocks of one byte only what comes after the last block. -/
theorem wraps_only_after_longest_twoSizes :
    (∃ g, Exact.make 18446744065119617025 4294967295 2 = some (.ok g) ∧ g.NeverWraps
      ∧ Exact.pieceCount g = some 4294967295 ∧ Exact.bitfieldBytes g = some 536870912
      ∧ (∃ stop, Exact.stop g ⟨4294967294⟩ = some stop ∧ stop ≤ 18446744065119617025)
      ∧ Exact.next? g (g.cursor ⟨0⟩ (g.blocksIn ⟨0⟩).toNat) = some none)
    ∧ ∃ g, Exact.make 18446744065119617025 4294967295 1 = some (.ok g) ∧ ¬ g.NeverWraps
      ∧ Exact.blocksIn g ⟨0⟩ = some 4294967295
      ∧ Exact.blockSize? g ⟨0⟩ 4294967294 = some (some 1)
      ∧ Exact.received? g 0 4294967294 1 = some (some ⟨⟨0⟩, 4294967294, 4294967294, 1⟩)
      ∧ Exact.walk g 1 (g.start ⟨0⟩) = some [⟨⟨0⟩, 0, 0, 1⟩] := by
  have hmake : make 18446744065119617025 4294967295 2
      = .ok ⟨18446744065119617025, 4294967295, 2, 4294967294, 4294967295, 2147483648⟩ := by decide
  have hmake' : make 18446744065119617025 4294967295 1
      = .ok ⟨18446744065119617025, 4294967295, 1, 4294967294, 4294967295, 4294967295⟩ := by decide
  obtain ⟨hexact, hall⟩ := wraps_only_after_longest 18446744065119617025 4294967295 2
  obtain ⟨hexact', hall'⟩ := wraps_only_after_longest 18446744065119617025 4294967295 1
  obtain ⟨h, hnever, -⟩ := hall _ hmake
  obtain ⟨h', hnever', -⟩ := hall' _ hmake'
  have hclean := hnever.mpr fun p _ hlongest => absurd hlongest.2 (by decide)
  obtain ⟨stop, hstop, -, hle⟩ := h.stop ⟨4294967294⟩ (by decide)
  refine ⟨⟨_, hexact.trans (congrArg some hmake), hclean, h.pieceCount, h.bitfieldBytes,
    ⟨stop, hstop, hle⟩, hclean.last ⟨0⟩ (by decide)⟩, _, hexact'.trans (congrArg some hmake'),
    fun hwraps => hnever'.mp hwraps ⟨0⟩ (by decide) ⟨by decide, by decide⟩, h'.blocksIn ⟨0⟩,
    h'.blockSize? ⟨0⟩ 4294967294, h'.received? 0 4294967294 1, h'.walk ⟨0⟩ 1 (by decide)⟩

/-- A piece of as many blocks as the largest word: after its last block the counter has no number to
go on to. -/
theorem neverWraps_fails : ¬ ∀ (total : UInt64) (pieceLength blockLength : UInt32) (g : Geometry),
    make total pieceLength blockLength = .ok g → g.NeverWraps := by
  intro hall
  have hmake : make 4294967295 4294967295 1
      = .ok ⟨4294967295, 4294967295, 1, 0, 4294967295, 4294967295⟩ := by decide
  have hshort := (sound_of_make hmake).neverWraps_iff.mp (hall _ _ _ _ hmake)
  exact hshort ⟨0⟩ (by decide) ⟨by decide, by decide⟩

end Geometry

end TorrentCore
