import TorrentCore.Proofs.Assembly.Ranges
import TorrentCore.Proofs.Geometry
import TorrentCore.Proofs.Storage

/-!
# The history of a storage

A storage is an array of bytes. Whatever it was asked to write, at every position there is what the
last write that reached it has left, or what was there at first.

Pieces are written in place, so that a piece that ends too early would leave a part of itself behind
and be reported as a failure. A piece that was handed over never does, and a range is judged by the
length of the storage, which no call changes. So what fails has changed nothing, and of two writes
with no byte in common each does the same before and after the other.
-/

namespace TorrentCore

namespace Storage

variable {s s' : Storage} {offset length position : Nat} {piece : AssembledPiece}

/-! ### In place -/

/-- As `writePiece`, in place: what was copied stays, even if it is reported as too little. -/
def writeInPlace (s : Storage) (offset : Nat) (piece : AssembledPiece) :
    Except StorageError Unit × Storage :=
  match s.stop offset piece.length with
  | .error e => (.error e, s)
  | .ok _ =>
    let (written, block) := piece.writeRange 0 (s.bytes.slice offset piece.length)
    (if written ≠ piece.length then .error (.shortWrite written piece.length) else .ok (),
      ⟨s.bytes.overwrite offset block⟩)

def readInto (s : Storage) (offset : Nat) (buffer : Bytes) : Except StorageError Unit × Bytes :=
  match s.read offset buffer.length with
  | .error e => (.error e, buffer)
  | .ok bytes => (.ok (), buffer.overwrite 0 bytes)

/-- There is such a range in a storage of this length. -/
def Fits (total offset length : Nat) : Prop :=
  offset + length < 18446744073709551616 ∧ offset + length ≤ total

instance (total offset length : Nat) : Decidable (Fits total offset length) :=
  inferInstanceAs (Decidable (_ ∧ _))

/-- Why there is not. -/
def refusal (total offset length : Nat) : StorageError :=
  if 18446744073709551616 ≤ offset + length then .offsetOverflow
  else .outOfBounds offset (offset + length) total

theorem Fits.length_slice (h : Fits s.bytes.length offset length) :
    (s.bytes.slice offset length).length = length := by
  have hfits := h.2
  rw [Bytes.length_slice]
  omega

theorem Fits.le_length (hp : piece.Whole) (h : Fits s.bytes.length offset piece.length) :
    offset + piece.bytes.length ≤ s.bytes.length := by
  rw [hp]
  exact h.2

theorem stop_of_fits (h : Fits s.bytes.length offset length) :
    s.stop offset length = .ok (offset + length) :=
  stop_eq_ok_iff.mpr ⟨h.1, h.2, rfl⟩

theorem stop_of_not_fits (h : ¬ Fits s.bytes.length offset length) :
    s.stop offset length = .error (refusal s.bytes.length offset length) := by
  unfold stop refusal
  split
  · rfl
  next hword =>
  rw [if_pos]
  by_contra hshort
  exact h ⟨by omega, by omega⟩

theorem writePiece_of_fits (hp : piece.Whole) (h : Fits s.bytes.length offset piece.length) :
    s.writePiece offset piece = .ok ⟨s.bytes.overwrite offset piece.bytes⟩ :=
  (writePiece_eq_ok_iff hp).mpr ⟨h.1, h.2, rfl⟩

theorem writePiece_of_not_fits (h : ¬ Fits s.bytes.length offset piece.length) :
    s.writePiece offset piece = .error (refusal s.bytes.length offset piece.length) := by
  rw [writePiece, stop_of_not_fits h]

theorem writeInPlace_of_fits (hp : piece.Whole) (h : Fits s.bytes.length offset piece.length) :
    s.writeInPlace offset piece = (.ok (), ⟨s.bytes.overwrite offset piece.bytes⟩) := by
  rw [writeInPlace, stop_of_fits h]
  simp only [hp.writeRange h.length_slice, ne_eq, not_true_eq_false, if_false]

theorem writeInPlace_of_not_fits (h : ¬ Fits s.bytes.length offset piece.length) :
    s.writeInPlace offset piece = (.error (refusal s.bytes.length offset piece.length), s) := by
  rw [writeInPlace, stop_of_not_fits h]

theorem unchanged_of_not_fits (h : ¬ Fits s.bytes.length offset piece.length) :
    (s.writeInPlace offset piece).2 = s := by
  rw [writeInPlace_of_not_fits h]

theorem readInto_of_fits {buffer : Bytes} (h : Fits s.bytes.length offset buffer.length) :
    s.read offset buffer.length = .ok (s.bytes.slice offset buffer.length)
      ∧ s.readInto offset buffer = (.ok (), s.bytes.slice offset buffer.length) := by
  have hread : s.read offset buffer.length = .ok (s.bytes.slice offset buffer.length) :=
    read_eq_ok_iff.mpr ⟨h.1, h.2, rfl⟩
  refine ⟨hread, ?_⟩
  rw [readInto, hread]
  simp only [Bytes.overwrite, h.length_slice, List.take_zero, List.nil_append, Nat.zero_add,
    List.drop_length, List.append_nil]

theorem readInto_of_not_fits {buffer : Bytes} (h : ¬ Fits s.bytes.length offset buffer.length) :
    s.read offset buffer.length = .error (refusal s.bytes.length offset buffer.length)
      ∧ s.readInto offset buffer
        = (.error (refusal s.bytes.length offset buffer.length), buffer) := by
  have hread : s.read offset buffer.length
      = .error (refusal s.bytes.length offset buffer.length) := by
    rw [read, stop_of_not_fits h]
  refine ⟨hread, ?_⟩
  rw [readInto, hread]

/-! ### One call -/

inductive Call
  | write (offset : UInt64) (piece : AssembledPiece) (origin : Assembler.HandsOver piece)
  | read (offset : UInt64) (buffer : Bytes)

def call (s : Storage) : Call → Storage
  | .write offset piece _ => (s.writeInPlace offset.toNat piece).2
  | .read _ _ => s

def Call.writes (total position : Nat) : Call → Option UInt8
  | .write offset piece _ =>
    if Fits total offset.toNat piece.length ∧ offset.toNat ≤ position then
      piece.bytes[position - offset.toNat]?
    else none
  | .read _ _ => none

theorem length_call (s : Storage) (c : Call) : (s.call c).bytes.length = s.bytes.length := by
  cases c with
  | read offset buffer => rfl
  | write offset piece origin =>
      have hwhole := origin.whole
      rw [call]
      by_cases hfits : Fits s.bytes.length offset.toNat piece.length
      · rw [writeInPlace_of_fits hwhole hfits]
        exact Bytes.length_overwrite (hfits.le_length hwhole)
      · rw [unchanged_of_not_fits hfits]

theorem getElem?_call (s : Storage) (c : Call) (position : Nat) :
    (s.call c).bytes[position]? = (c.writes s.bytes.length position).or s.bytes[position]? := by
  cases c with
  | read offset buffer => rfl
  | write offset piece origin =>
      rw [call, Call.writes]
      by_cases hfits : Fits s.bytes.length offset.toNat piece.length
      · have hroom := hfits.le_length origin.whole
        rw [writeInPlace_of_fits origin.whole hfits]
        by_cases hstart : offset.toNat ≤ position
        · rw [if_pos ⟨hfits, hstart⟩]
          by_cases hstop : position < offset.toNat + piece.bytes.length
          · rw [Bytes.getElem?_overwrite_inside hroom hstart hstop,
              List.getElem?_eq_getElem (by omega), Option.some_or]
          · rw [Bytes.getElem?_overwrite hroom (.inr (Nat.le_of_not_lt hstop)),
              List.getElem?_eq_none (l := piece.bytes) (by omega), Option.none_or]
        · rw [if_neg fun h => hstart h.2, Option.none_or,
            Bytes.getElem?_overwrite hroom (.inl (Nat.lt_of_not_le hstart))]
      · rw [unchanged_of_not_fits hfits, if_neg fun h => hfits h.1, Option.none_or]

/-! ### A run of calls -/

def run (s : Storage) (calls : List Call) : Storage := calls.foldl call s

/-- What was written last at a position. -/
def lastWritten (total : Nat) (calls : List Call) (position : Nat) : Option UInt8 :=
  (calls.filterMap (Call.writes total position)).getLast?

theorem lastWritten_cons (total : Nat) (c : Call) (calls : List Call) (position : Nat) :
    lastWritten total (c :: calls) position
      = (lastWritten total calls position).or (c.writes total position) := by
  unfold lastWritten
  rw [List.filterMap_cons]
  cases c.writes total position with
  | none => rw [Option.or_none]
  | some value =>
      rw [List.getLast?_cons]
      cases (calls.filterMap (Call.writes total position)).getLast? <;> rfl

theorem length_run (s : Storage) (calls : List Call) :
    (s.run calls).bytes.length = s.bytes.length := by
  induction calls generalizing s with
  | nil => rfl
  | cons c calls ih => exact (ih (s.call c)).trans (s.length_call c)

theorem getElem?_run (s : Storage) (calls : List Call) (position : Nat) :
    (s.run calls).bytes[position]?
      = (lastWritten s.bytes.length calls position).or s.bytes[position]? := by
  induction calls generalizing s with
  | nil => rfl
  | cons c calls ih =>
      rw [lastWritten_cons, Option.or_assoc, ← getElem?_call, ← length_call s c]
      exact ih (s.call c)

/-! ### All or nothing -/

/-- A piece is written as a whole if there is room for it, and otherwise nothing is. -/
structure WritesWhole (s : Storage) (offset : Nat) (piece : AssembledPiece) : Prop where
  written : Fits s.bytes.length offset piece.length →
    ∃ s', s.writePiece offset piece = .ok s' ∧ s.writeInPlace offset piece = (.ok (), s')
      ∧ s'.bytes.length = s.bytes.length
      ∧ ∀ position, s'.bytes[position]? =
        if offset ≤ position ∧ position < offset + piece.length then
          piece.bytes[position - offset]?
        else s.bytes[position]?
  refused : ¬ Fits s.bytes.length offset piece.length →
    s.writePiece offset piece = .error (refusal s.bytes.length offset piece.length)
      ∧ s.writeInPlace offset piece
        = (.error (refusal s.bytes.length offset piece.length), s)

theorem writesWhole (s : Storage) (offset : Nat) (hp : piece.Whole) :
    s.WritesWhole offset piece where
  written hfits := by
    have hroom := hfits.le_length hp
    refine ⟨_, writePiece_of_fits hp hfits, writeInPlace_of_fits hp hfits,
      Bytes.length_overwrite hroom, fun position => ?_⟩
    rw [← hp]
    split
    · next hinside => exact Bytes.getElem?_overwrite_inside hroom hinside.1 hinside.2
    · next houtside => exact Bytes.getElem?_overwrite hroom (by omega)
  refused hfits := ⟨writePiece_of_not_fits hfits, writeInPlace_of_not_fits hfits⟩

/-- A buffer is filled with these values if there are as many, and otherwise left as it is. -/
structure ReadsBack (s : Storage) (value : Nat → Option UInt8) (offset : Nat) (buffer : Bytes) :
    Prop where
  filled : Fits s.bytes.length offset buffer.length →
    ∃ bytes, s.read offset buffer.length = .ok bytes ∧ s.readInto offset buffer = (.ok (), bytes)
      ∧ bytes.length = buffer.length
      ∧ ∀ i < buffer.length, bytes[i]? = value (offset + i)
  refused : ¬ Fits s.bytes.length offset buffer.length →
    s.read offset buffer.length = .error (refusal s.bytes.length offset buffer.length)
      ∧ s.readInto offset buffer
        = (.error (refusal s.bytes.length offset buffer.length), buffer)

theorem readsBack {value : Nat → Option UInt8} (h : ∀ position, s.bytes[position]? = value position)
    (offset : Nat) (buffer : Bytes) : s.ReadsBack value offset buffer where
  filled hfits := by
    obtain ⟨hread, hinto⟩ := readInto_of_fits hfits
    refine ⟨_, hread, hinto, hfits.length_slice, fun i hi => ?_⟩
    rw [Bytes.slice, List.getElem?_take_of_lt hi, List.getElem?_drop, h]
  refused := readInto_of_not_fits

/-! ### In either order -/

/-- Of two writes each succeeds or fails as it does without the other, and it does not matter which
comes first. -/
structure Commute (s : Storage) (offset : Nat) (piece : AssembledPiece) (offset' : Nat)
    (piece' : AssembledPiece) : Prop where
  first : ((s.writeInPlace offset' piece').2.writeInPlace offset piece).1
    = (s.writeInPlace offset piece).1
  second : ((s.writeInPlace offset piece).2.writeInPlace offset' piece').1
    = (s.writeInPlace offset' piece').1
  both : ((s.writeInPlace offset piece).2.writeInPlace offset' piece').2
    = ((s.writeInPlace offset' piece').2.writeInPlace offset piece).2

theorem outcome_of_length (hp : piece.Whole) (h : s'.bytes.length = s.bytes.length) :
    (s'.writeInPlace offset piece).1 = (s.writeInPlace offset piece).1 := by
  by_cases hfits : Fits s.bytes.length offset piece.length
  · rw [writeInPlace_of_fits hp hfits, writeInPlace_of_fits hp (h ▸ hfits)]
  · rw [writeInPlace_of_not_fits hfits, writeInPlace_of_not_fits (h ▸ hfits), h]

theorem length_writeInPlace (s : Storage) (offset : Nat) (hp : piece.Whole) :
    (s.writeInPlace offset piece).2.bytes.length = s.bytes.length := by
  by_cases hfits : Fits s.bytes.length offset piece.length
  · obtain ⟨s', -, hwritten, hlength, -⟩ := (s.writesWhole offset hp).written hfits
    rw [hwritten, hlength]
  · rw [unchanged_of_not_fits hfits]

theorem commute (s : Storage) {offset offset' : Nat} {piece piece' : AssembledPiece}
    (hp : piece.Whole) (hp' : piece'.Whole)
    (hdisjoint : offset + piece.length ≤ offset' ∨ offset' + piece'.length ≤ offset) :
    s.Commute offset piece offset' piece' where
  first := outcome_of_length hp (s.length_writeInPlace offset' hp')
  second := outcome_of_length hp' (s.length_writeInPlace offset hp)
  both := by
    have hlength := s.length_writeInPlace offset hp
    have hlength' := s.length_writeInPlace offset' hp'
    by_cases hfits : Fits s.bytes.length offset piece.length
    · by_cases hfits' : Fits s.bytes.length offset' piece'.length
      · have hlater : Fits (s.writeInPlace offset' piece').2.bytes.length offset piece.length := by
          rwa [hlength']
        have hlater' : Fits (s.writeInPlace offset piece).2.bytes.length offset' piece'.length := by
          rwa [hlength]
        rw [writeInPlace_of_fits hp hlater, writeInPlace_of_fits hp' hlater',
          writeInPlace_of_fits hp hfits, writeInPlace_of_fits hp' hfits']
        refine congrArg mk (Bytes.overwrite_comm (hfits.le_length hp) (hfits'.le_length hp') ?_)
        rw [hp, hp']
        exact hdisjoint
      -- A write that fails leaves the storage to the other one.
      · have hlater' : ¬ Fits (s.writeInPlace offset piece).2.bytes.length offset' piece'.length := by
          rwa [hlength]
        rw [unchanged_of_not_fits hfits', unchanged_of_not_fits hlater']
    · have hlater : ¬ Fits (s.writeInPlace offset' piece').2.bytes.length offset piece.length := by
        rwa [hlength']
      rw [unchanged_of_not_fits hfits, unchanged_of_not_fits hlater]

/-- A storage is an array of bytes in which pieces are written as a whole, through every history of
what it is asked for. -/
theorem run_keeps_last_written (s : Storage) (calls : List Call) :
    (s.run calls).bytes.length = s.bytes.length
      ∧ (∀ position, (s.run calls).bytes[position]?
        = (lastWritten s.bytes.length calls position).or s.bytes[position]?)
      ∧ (∀ (offset : UInt64) (piece : AssembledPiece), Assembler.HandsOver piece →
        (s.run calls).WritesWhole offset.toNat piece)
      ∧ (∀ (offset : UInt64) (buffer : Bytes), (s.run calls).ReadsBack
        (fun position => (lastWritten s.bytes.length calls position).or s.bytes[position]?)
        offset.toNat buffer)
      ∧ ∀ (total : UInt64) (pieceLength blockLength : UInt32) (g : Geometry),
        Geometry.make total pieceLength blockLength = .ok g →
        ∀ p q : PieceIndex, p ≠ q → ∀ piece piece' : AssembledPiece,
          Assembler.HandsOver piece → piece.length = (g.lengthOf p).toNat →
          Assembler.HandsOver piece' → piece'.length = (g.lengthOf q).toNat →
          (s.run calls).Commute (g.offsetOf p).toNat piece (g.offsetOf q).toNat piece' := by
  refine ⟨s.length_run calls, s.getElem?_run calls,
    fun offset piece hpiece => writesWhole _ offset.toNat hpiece.whole,
    fun offset buffer => readsBack (s.getElem?_run calls) offset.toNat buffer, ?_⟩
  intro total pieceLength blockLength g hg p q hne piece piece' hpiece hlength hpiece' hlength'
  refine commute _ hpiece.whole hpiece'.whole ?_
  rw [hlength, hlength']
  exact (Geometry.sound_of_make hg).disjoint hne

def onePart : AssembledPiece := ⟨1, 4, [⟨4, [9, 10, 11, 12]⟩]⟩

theorem handsOver_onePart : Assembler.HandsOver onePart := by
  have hblock := (Assembler.Reached.make 1 4 4).add (b := ⟨.zero, 1, 0, ⟨4, [9, 10, 11, 12]⟩⟩) rfl
  exact ⟨_, _, hblock, rfl⟩

/-- A torrent of twelve bytes, in which a piece of eight and one of four are written. A write that
would end past the last word and a read that would end past the last byte are refused. -/
theorem run_keeps_last_written_twelve :
    let calls : List Call :=
      [.write 2 AssembledPiece.threeParts AssembledPiece.handsOver_threeParts,
      .read 11 [7, 7],
      .write 18446744073709551615 AssembledPiece.threeParts AssembledPiece.handsOver_threeParts,
      .write 0 AssembledPiece.threeParts AssembledPiece.handsOver_threeParts]
    let now := run ⟨List.replicate 12 0⟩ calls
    now.bytes[1]? = some 2 ∧ now.bytes[8]? = some 7 ∧ now.bytes[11]? = some 0
      ∧ now.writePiece 5 AssembledPiece.threeParts = .error (.outOfBounds 5 13 12)
      ∧ now.writePiece 18446744073709551615 AssembledPiece.threeParts = .error .offsetOverflow
      ∧ now.readInto 11 [7, 7] = (.error (.outOfBounds 11 13 12), [7, 7])
      ∧ (∃ bytes, now.readInto 7 [7, 7] = (.ok (), bytes) ∧ bytes[1]? = some 7)
      ∧ now.Commute 8 onePart 0 AssembledPiece.threeParts := by
  intro calls now
  obtain ⟨-, hvalue, hwrites, hreads, hcommute⟩ :=
    run_keeps_last_written ⟨List.replicate 12 0⟩ calls
  have hparts := AssembledPiece.handsOver_threeParts
  obtain ⟨bytes, -, hfilled, -, hbytes⟩ := (hreads 7 [7, 7]).filled (by decide)
  refine ⟨(hvalue 1).trans (by decide), (hvalue 8).trans (by decide), (hvalue 11).trans (by decide),
    ((hwrites 5 _ hparts).refused (by decide)).1,
    ((hwrites 18446744073709551615 _ hparts).refused (by decide)).1,
    ((hreads 11 [7, 7]).refused (by decide)).2, ⟨bytes, hfilled, ?_⟩,
    hcommute 12 8 4 ⟨12, 8, 4, 1, 4, 2⟩ rfl ⟨1⟩ ⟨0⟩ (by decide) _ _
      handsOver_onePart rfl hparts rfl⟩
  exact (hbytes 1 (by decide)).trans (by decide)

end Storage

end TorrentCore
