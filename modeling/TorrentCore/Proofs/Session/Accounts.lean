import TorrentCore.Proofs.Session.Admission
import TorrentCore.Proofs.Session.Takings

/-!
# Where the bytes are

A block counts as fetched when it is merged. From then on its bytes are in a slot of an unfinished
piece, in the piece that is being verified, or in a piece that was judged; and a piece that was
judged has either come to be owned or has failed. So the bytes that were fetched are the bytes of
these four kinds, whatever blocks come and whoever is asked for them. Only a shutdown gives up bytes
that were not judged. What has come to be owned is counted when it is marked, which happens once
for each piece, and wrong digests are counted when they are found.
-/

namespace TorrentCore

def AssembledPiece.differs (p : AssembledPiece) (hashes : PieceHashes) : Bool :=
  (hashes.get? ⟨UInt32.ofNat p.piece⟩).any fun expected => Sha1.digest p.bytes != expected.bytes

def PieceBuffer.heldBytes (p : PieceBuffer) : Nat := p.assembler.heldBytes

def bytesHeld (unfinished : Table Nat PieceBuffer) : Nat :=
  (unfinished.values.map PieceBuffer.heldBytes).sum

def bytesOf (piece : Option AssembledPiece) : Nat := (piece.map AssembledPiece.length).getD 0

namespace Session

def Verdict.isStored : Verdict → Bool
  | .stored _ => true
  | _ => false

def Verdict.isMismatch : Verdict → Bool
  | .mismatch => true
  | _ => false

abbrev Judgement := AssembledPiece × Verdict

def bytesFailed (judgements : List Judgement) : Nat :=
  ((judgements.filter fun j => !j.2.isStored).map fun j => j.1.length).sum

/-- What an event judges. After a shutdown nothing is judged. -/
def judges? (s : Session) : Event → Option Judgement
  | .own .finishPiece =>
    if s.cancelled then none else s.verifying.map fun piece => (piece, s.verdict piece)
  | _ => none

def gaveUp (s : Session) : Event → Nat
  | .own .finishPiece => if s.cancelled then bytesOf s.verifying else 0
  | .shutdown => bytesHeld s.unfinished
  | _ => 0

/-- Everything that was judged in a run. -/
def judged (events : List (Nanoseconds × Event)) (start : Session) : List Judgement :=
  (steps events start).filterMap fun (s, event) => s.judges? event

/-- The bytes that were given up in a run. -/
def bytesGivenUp (events : List (Nanoseconds × Event)) (start : Session) : Nat :=
  ((steps events start).map fun (s, event) => s.gaveUp event).sum

end Session

namespace Holdings

/-- The pieces that have come to be owned. -/
def gained (before h : Holdings) : Finset Nat :=
  {index ∈ Finset.range h.geometry.pieceCount.toNat |
    h.owned.contains index = true ∧ before.owned.contains index = false}

def bytesGained (before h : Holdings) : Nat :=
  ∑ index ∈ before.gained h, (h.geometry.lengthOf ⟨UInt32.ofNat index⟩).toNat

end Holdings

/-! ### Slots -/

theorem bytesHeld_erase {unfinished : Table Nat PieceBuffer} (h : unfinished.keys.Nodup)
    (key : Nat) :
    bytesHeld (unfinished.erase key) + unfinished.weightAt PieceBuffer.heldBytes key
      = bytesHeld unfinished := Table.sum_values_erase h _ key

theorem bytesHeld_insert {unfinished : Table Nat PieceBuffer} (h : unfinished.keys.Nodup)
    (key : Nat)
    (buffer : PieceBuffer) :
    bytesHeld (unfinished.insert key buffer) + unfinished.weightAt PieceBuffer.heldBytes key
      = bytesHeld unfinished + buffer.assembler.heldBytes := Table.sum_values_insert h _ key buffer

namespace Session

open Holdings

variable {start s s' : Session} {b : Block} {piece : AssembledPiece} {now : Nanoseconds}
  {event : Event}

theorem heldBytes_bufferFor (s : Session) (p : PieceIndex) (owner : Identifier) :
    (s.bufferFor p owner).assembler.heldBytes
      = s.unfinished.weightAt PieceBuffer.heldBytes p.val.toNat := by
  rw [bufferFor, Table.weightAt]
  split
  · next buffer hbuffer =>
    rw [hbuffer]
    rfl
  · next hnone =>
    rw [hnone]
    exact Assembler.heldBytes_make _ _ _

/-- Merging a block of this many bytes: what it adds is in the slots, or in the piece that it
completes. -/
structure Fetches (s : Session) (length : Nat) (piece : Option AssembledPiece)
    (unfinished : Table Nat PieceBuffer) (s' : Session) : Prop where
  holdings_eq : s'.holdings = { s.holdings with unfinished := unfinished }
  takings_eq : s'.takings = s.takings.fetch length
  nodup : unfinished.keys.Nodup
  bytes_eq : bytesHeld unfinished + bytesOf piece = bytesHeld s.unfinished + length

theorem fetches_addBlock (hfilling : s.holdings.Filling) (hnodup : s.unfinished.keys.Nodup)
    (hword : ∀ owner, s.owners.get? b.piece = some owner → b.piece < 4294967296) :
    ∃ length unfinished, s.Fetches length (s.addBlock b).1 unfinished (s.addBlock b).2 := by
  have hdropped : s.Fetches 0 none s.unfinished (s.dropBlock b) :=
    ⟨rfl, s.takings.fetch_zero.symm, hnodup, rfl⟩
  unfold addBlock
  split
  · exact ⟨0, s.unfinished, hdropped⟩
  next p hpiece =>
  cases Geometry.piece?_eq_some hpiece
  split
  · exact ⟨0, s.unfinished, hdropped⟩
  split
  · exact ⟨0, s.unfinished, hdropped⟩
  next owner howner =>
  -- The piece has an owner, so its number is a word and its slots are found under it.
  have hnumber : (UInt32.ofNat b.piece).toNat = b.piece :=
    UInt32.toNat_ofNat_of_lt' (hword owner howner)
  have hbefore := heldBytes_bufferFor s ⟨UInt32.ofNat b.piece⟩ owner
  rw [hnumber] at hbefore
  have hbuffer := filling_bufferFor hfilling (UInt32.ofNat b.piece) owner
  simp only
  split
  · have hinsert := bytesHeld_insert hnodup b.piece (s.bufferFor ⟨UInt32.ofNat b.piece⟩ owner)
    refine ⟨0, s.unfinished.insert b.piece (s.bufferFor ⟨UInt32.ofNat b.piece⟩ owner), ?_, ?_,
      Table.nodup_keys_insert hnodup _ _, ?_⟩
    · exact holdings_of_outline (outline_noteDiscarded _ _)
    · exact (takings_noteDiscarded _ _).trans s.takings.fetch_zero.symm
    · show _ + 0 = _
      omega
  next buffer hadded =>
  have hadded' := PieceBuffer.add?_eq_some hadded
  have hbytes := Assembler.heldBytes_add hadded'
  split
  · next hdone =>
    have herase := bytesHeld_erase hnodup b.piece
    have hfilled := hbuffer.add hadded'
    have hcomplete := hfilled.complete_eq hdone
    have hwhole : buffer.assembler.heldBytes = buffer.assembler.length :=
      hfilled.heldBytes_eq (Assembler.complete?_of_complete (congrArg Prod.fst hcomplete))
    refine ⟨b.data.bytes.length, s.unfinished.erase b.piece, rfl, rfl,
      Table.nodup_keys_erase hnodup _, ?_⟩
    show _ + bytesOf buffer.assembler.complete.1 = _
    rw [hcomplete]
    show _ + buffer.assembler.length = _
    omega
  · have hinsert := bytesHeld_insert hnodup b.piece buffer
    refine ⟨b.data.bytes.length, s.unfinished.insert b.piece buffer, rfl, rfl,
      Table.nodup_keys_insert hnodup _ _, ?_⟩
    show _ + 0 = _
    omega

/-! ### Judging -/

theorem isMismatch_verdict (hpiece : (s.geometry.piece? (UInt32.ofNat piece.piece)).isSome = true) :
    (s.verdict piece).isMismatch = piece.differs s.hashes := by
  obtain ⟨p, hp⟩ := Option.isSome_iff_exists.mp hpiece
  cases Geometry.piece?_eq_some hp
  simp only [verdict, hp, AssembledPiece.differs]
  cases s.hashes.get? ⟨UInt32.ofNat piece.piece⟩ with
  | none => rfl
  | some expected =>
      have hdiffers : (Sha1.digest piece.bytes != expected.bytes) = !piece.verify expected := by
        rw [Bool.eq_iff_iff, bne_iff_ne, Bool.not_eq_true', ← Bool.not_eq_true,
          piece.verify_eq_true_iff]
      simp only [Option.any_some, hdiffers]
      cases piece.verify expected with
      | false => rfl
      | true =>
          cases s.storage.writePiece (s.geometry.offsetOf ⟨UInt32.ofNat piece.piece⟩).toNat piece with
          | ok storage => rfl
          | error e => rfl

inductive Settles (s : Session) (piece : AssembledPiece) (s' : Session) : Prop
  | givenUp (storage : Storage) (hcancelled : s.cancelled = true)
      (hholdings : s'.holdings = { s.holdings with verifying := none, storage := storage })
      (htakings : s'.takings = s.takings)
  | accepted (storage : Storage) (hactive : s.cancelled = false)
      (hverdict : s.verdict piece = .stored storage)
      (hholdings : s'.holdings = { s.holdings with
        verifying := none, storage := storage, owned := s.owned.insert piece.piece })
      (htakings : s'.takings = s.takings.verify piece.length)
  | failed (hactive : s.cancelled = false) (hverdict : (s.verdict piece).isStored = false)
      (hholdings : s'.holdings = { s.holdings with verifying := none })
      (htakings : s'.takings
        = if (s.verdict piece).isMismatch then s.takings.reject else s.takings)

theorem settles_finishPiece (hverifying : s.verifying = some piece)
    (hindex : piece.piece < s.owned.pieceCount) (hnew : s.owned.contains piece.piece = false)
    (h : s.finishPiece? = some s') : s.Settles piece s' := by
  unfold finishPiece? at h
  rw [hverifying] at h
  simp only at h
  cases hcancelled : s.cancelled with
  | true =>
      simp only [hcancelled, if_true] at h
      cases h
      exact .givenUp _ hcancelled rfl rfl
  | false =>
      simp only [hcancelled, Bool.false_eq_true, if_false] at h
      cases h
      cases hverdict : s.verdict piece with
      | stored storage =>
          have hmark : s.owned.mark piece.piece = .ok (true, s.owned.insert piece.piece) := by
            rw [Bitfield.mark, if_pos hindex, hnew]
            rfl
          refine .accepted storage hcancelled hverdict ?_ ?_
          · show (markOwned _ piece).holdings = _
            simp only [markOwned, releasePiece, hmark]
            exact (holdings_of_outline (outline_announce _ _)).trans rfl
          · show (markOwned _ piece).takings = _
            simp only [markOwned, releasePiece, hmark, takings_announce]
            rfl
      | mismatch | notStored cause =>
          refine .failed hcancelled (by rw [hverdict]; rfl) rfl ?_
          rw [hverdict]
          rfl

end Session

/-! ### The balance -/

namespace Holdings

variable {before h h' : Holdings} {index : Nat}

theorem gained_insert (hgeometry : h'.geometry = h.geometry)
    (howned : h'.owned = h.owned.insert index) (hwell : h.owned.WellFormed)
    (hcount : h.owned.pieceCount = h.geometry.pieceCount.toNat)
    (hindex : index < h.owned.pieceCount)
    (hbefore : before.owned.contains index = false) :
    before.gained h' = insert index (before.gained h) := by
  ext other
  simp only [gained, Finset.mem_filter, Finset.mem_range, Finset.mem_insert, hgeometry, howned,
    Bitfield.contains_insert hwell hindex, Bool.or_eq_true, decide_eq_true_eq]
  constructor
  · rintro ⟨hother, howned | rfl, hnew⟩
    · exact Or.inr ⟨hother, howned, hnew⟩
    · exact Or.inl rfl
  · rintro (rfl | ⟨hother, howned, hnew⟩)
    · exact ⟨hcount ▸ hindex, Or.inr rfl, hbefore⟩
    · exact ⟨hother, Or.inl howned, hnew⟩

theorem not_mem_gained (hnew : h.owned.contains index = false) : index ∉ before.gained h := by
  rw [gained, Finset.mem_filter, hnew]
  exact fun hmem => Bool.false_ne_true hmem.2.1

end Holdings

namespace Session

open Holdings

variable {start s s' : Session} {piece : AssembledPiece} {now : Nanoseconds} {event : Event}
  {before : Holdings} {judgements : List Judgement} {givenUp : Nat}

theorem bytesFailed_append (judgements : List Judgement) (j : Judgement) :
    bytesFailed (judgements ++ [j])
      = bytesFailed judgements + if j.2.isStored then 0 else j.1.length := by
  rw [bytesFailed, List.filter_append, List.map_append, List.sum_append]
  cases hstored : j.2.isStored <;> simp [hstored, bytesFailed]

/-- The takings say where the bytes are. -/
structure Balanced (before : Holdings) (judgements : List Judgement) (givenUp : Nat) (h : Holdings)
    (t : Takings) : Prop where
  hashes_eq : h.hashes = before.hashes
  kept : ∀ index, before.owned.contains index = true → h.owned.contains index = true
  nodup : h.unfinished.keys.Nodup
  missing : ∀ piece, h.verifying = some piece → h.owned.contains piece.piece = false
  fetched_eq : t.fetchedBytes = UInt64.ofNat (before.bytesGained h + bytesFailed judgements
    + bytesHeld h.unfinished + bytesOf h.verifying + givenUp)
  verified_eq : t.verifiedBytes = UInt64.ofNat (before.bytesGained h)
  pieces_eq : t.verifiedPieces = UInt32.ofNat (before.gained h).card
  failures_eq : t.hashFailures
    = UInt32.ofNat (judgements.countP fun j => j.1.differs before.hashes)
  count_eq : h.owned.count = before.owned.count + (before.gained h).card

theorem Balanced.fetch (h : Balanced before judgements givenUp s.holdings s.takings)
    (hidle : s.verifying = none) {length : Nat} {piece : Option AssembledPiece}
    {unfinished : Table Nat PieceBuffer} (hfetches : s.Fetches length piece unfinished s')
    (hmissing : ∀ p, piece = some p → s.owned.contains p.piece = false) :
    Balanced before judgements givenUp { s'.holdings with verifying := piece } s'.takings := by
  rw [hfetches.holdings_eq, hfetches.takings_eq]
  refine ⟨h.hashes_eq, h.kept, hfetches.nodup, hmissing, ?_, h.verified_eq, h.pieces_eq,
    h.failures_eq, h.count_eq⟩
  have hbytes := hfetches.bytes_eq
  have hfetched := h.fetched_eq
  rw [show s.holdings.verifying = none from hidle] at hfetched
  show s.takings.fetchedBytes + UInt64.ofNat length = _
  rw [hfetched, ← UInt64.ofNat_add]
  congr 1
  show bytesGained before s.holdings + _ + bytesHeld s.unfinished + 0 + _ + _
    = bytesGained before s.holdings + _ + bytesHeld unfinished + bytesOf piece + _
  omega

theorem Balanced.addBlock (h : Balanced before judgements givenUp s.holdings s.takings)
    (hidle : s.verifying = none) (hfilling : s.holdings.Filling)
    (howner : ∀ index owner, s.owners.get? index = some owner → index < 4294967296) (b : Block) :
    Balanced before judgements givenUp
      { (s.addBlock b).2.holdings with verifying := (s.addBlock b).1 } (s.addBlock b).2.takings := by
  obtain ⟨length, unfinished, hfetches⟩ := fetches_addBlock hfilling h.nodup (howner b.piece)
  refine h.fetch hidle hfetches fun p hp => ?_
  have hmerge : Merge s b (some p, (s.addBlock b).2) := hp ▸ addBlock_cases s b
  exact (hmerge.completes hfilling).2.1

theorem Balanced.giveUp (h : Balanced before judgements givenUp s.holdings s.takings)
    (hverifying : s.verifying = some piece) (storage : Storage) :
    Balanced before judgements (givenUp + piece.length)
      { s.holdings with verifying := none, storage := storage } s.takings := by
  refine ⟨h.hashes_eq, h.kept, h.nodup, nofun, ?_, h.verified_eq, h.pieces_eq, h.failures_eq,
    h.count_eq⟩
  have hfetched := h.fetched_eq
  rw [show s.holdings.verifying = some piece from hverifying] at hfetched
  rw [hfetched]
  congr 1
  show bytesGained before s.holdings + _ + bytesHeld s.unfinished + piece.length + _
    = bytesGained before s.holdings + _ + bytesHeld s.unfinished + 0 + (_ + piece.length)
  omega

theorem Balanced.fail (h : Balanced before judgements givenUp s.holdings s.takings)
    (hverifying : s.verifying = some piece) {verdict : Verdict} (hfailed : verdict.isStored = false)
    (hdiffers : verdict.isMismatch = piece.differs s.hashes) :
    Balanced before (judgements ++ [(piece, verdict)]) givenUp { s.holdings with verifying := none }
      (if verdict.isMismatch then s.takings.reject else s.takings) := by
  rw [show s.hashes = before.hashes from h.hashes_eq] at hdiffers
  have hfetched := h.fetched_eq
  have hbytes := bytesFailed_append judgements (piece, verdict)
  rw [hfailed, if_neg Bool.false_ne_true] at hbytes
  rw [show s.holdings.verifying = some piece from hverifying] at hfetched
  refine ⟨h.hashes_eq, h.kept, h.nodup, nofun, ?_, ?_, ?_, ?_, h.count_eq⟩
  · have hsame : (if verdict.isMismatch then s.takings.reject else s.takings).fetchedBytes
        = s.takings.fetchedBytes := by split <;> rfl
    rw [hsame, hfetched, hbytes]
    congr 1
    show bytesGained before s.holdings + _ + bytesHeld s.unfinished + piece.length + _
      = bytesGained before s.holdings + (_ + piece.length) + bytesHeld s.unfinished + 0 + _
    omega
  · refine Eq.trans ?_ h.verified_eq
    split <;> rfl
  · refine Eq.trans ?_ h.pieces_eq
    split <;> rfl
  · rw [List.countP_append, List.countP_singleton, ← hdiffers, UInt32.ofNat_add, ← h.failures_eq]
    cases verdict.isMismatch with
    | true => rfl
    | false => exact (UInt32.add_zero _).symm

theorem Balanced.accept (h : Balanced before judgements givenUp s.holdings s.takings)
    (hfits : s.Fits) (hverifying : s.verifying = some piece) (hpiece : s.geometry.Fits piece)
    (hindex : piece.piece < s.owned.pieceCount) (storage : Storage) {verdict : Verdict}
    (hstored : verdict.isStored = true) (hdiffers : piece.differs s.hashes = false) :
    Balanced before (judgements ++ [(piece, verdict)]) givenUp { s.holdings with
      verifying := none, storage := storage, owned := s.owned.insert piece.piece }
      (s.takings.verify piece.length) := by
  rw [show s.hashes = before.hashes from h.hashes_eq] at hdiffers
  have hnew : s.owned.contains piece.piece = false := h.missing piece hverifying
  have hbefore : before.owned.contains piece.piece = false := by
    rw [← Bool.not_eq_true]
    intro hkept
    exact Bool.false_ne_true (hnew.symm.trans (h.kept _ hkept))
  have hgained : before.gained { s.holdings with
      verifying := none, storage := storage, owned := s.owned.insert piece.piece }
      = insert piece.piece (before.gained s.holdings) :=
    gained_insert rfl rfl hfits.wellFormed hfits.pieceCount_eq hindex hbefore
  have hfresh : piece.piece ∉ before.gained s.holdings := not_mem_gained hnew
  have hsum : before.bytesGained { s.holdings with
      verifying := none, storage := storage, owned := s.owned.insert piece.piece }
      = before.bytesGained s.holdings + piece.length := by
    rw [bytesGained, hgained, Finset.sum_insert hfresh, hpiece.length_eq]
    exact Nat.add_comm _ _
  have hbytes := bytesFailed_append judgements (piece, verdict)
  rw [hstored, if_pos rfl, Nat.add_zero] at hbytes
  have hfetched := h.fetched_eq
  rw [show s.holdings.verifying = some piece from hverifying] at hfetched
  refine ⟨h.hashes_eq, fun index hkept => ?_, h.nodup, nofun, ?_, ?_, ?_, ?_, ?_⟩
  · show (s.owned.insert piece.piece).contains index = true
    rw [Bitfield.contains_insert hfits.wellFormed hindex, Bool.or_eq_true]
    exact Or.inl (h.kept index hkept)
  · rw [hsum, hbytes]
    refine hfetched.trans (congrArg UInt64.ofNat ?_)
    show bytesGained before s.holdings + _ + bytesHeld s.unfinished + piece.length + _
      = bytesGained before s.holdings + piece.length + _ + bytesHeld s.unfinished + 0 + _
    omega
  · rw [hsum, UInt64.ofNat_add, ← h.verified_eq]
    rfl
  · rw [hgained, Finset.card_insert_of_notMem hfresh, UInt32.ofNat_add, ← h.pieces_eq]
    rfl
  · rw [List.countP_append, List.countP_singleton, hdiffers, if_neg Bool.false_ne_true,
      Nat.add_zero]
    exact h.failures_eq
  · rw [hgained, Finset.card_insert_of_notMem hfresh]
    show (s.owned.insert piece.piece).count = _
    have hcount : s.owned.count = before.owned.count + (before.gained s.holdings).card := h.count_eq
    rw [Bitfield.count_insert hfits.wellFormed hindex, hnew, hcount]
    rfl

/-! ### Events -/

/-- What is known of every session that can be reached. -/
structure Orderly (s : Session) : Prop where
  geometry : s.geometry.Sound
  fits : s.Fits
  filling : s.holdings.Filling
  verifying : ∀ piece, s.verifying = some piece →
    s.geometry.Fits piece ∧ piece.piece < s.owned.pieceCount
  owner : ∀ index owner, s.owners.get? index = some owner → index < 4294967296

theorem Balanced.consume (h : Balanced before judgements givenUp s.holdings s.takings)
    (hs : s.Orderly) (hconsume : s.consume? = some s') :
    Balanced before judgements givenUp s'.holdings s'.takings := by
  unfold consume? at hconsume
  split at hconsume
  · cases hconsume
  next hidle =>
  rw [Bool.or_eq_true, not_or, Option.not_isSome_iff_eq_none] at hidle
  split at hconsume
  · cases hconsume
  next block blocks _ =>
  cases hconsume
  exact Balanced.addBlock (s := { s with hub := { s.hub with blocks := blocks } }) h hidle.2 hs.filling
    hs.owner block

theorem Balanced.finishPiece (h : Balanced before judgements givenUp s.holdings s.takings)
    (hs : s.Orderly) (hfinish : s.finishPiece? = some s') :
    Balanced before (judgements ++ (s.judges? (.own .finishPiece)).toList)
      (givenUp + s.gaveUp (.own .finishPiece)) s'.holdings s'.takings := by
  obtain ⟨piece, hverifying, _⟩ := finishPiece_cases hfinish
  obtain ⟨hpiece, hindex⟩ := hs.verifying piece hverifying
  have hnew := h.missing piece hverifying
  have hdiffers : (s.verdict piece).isMismatch = piece.differs s.hashes := by
    refine isMismatch_verdict ?_
    have hcount : piece.piece < s.pieceCount := hs.fits.pieceCount_eq ▸ hindex
    rw [hs.geometry.piece?_eq hcount]
    rfl
  simp only [judges?, gaveUp, hverifying]
  cases settles_finishPiece hverifying hindex hnew hfinish with
  | givenUp storage hcancelled hholdings htakings =>
      rw [hholdings, htakings, hcancelled]
      have hafter := h.giveUp hverifying storage
      rwa [← List.append_nil judgements] at hafter
  | accepted storage hactive hverdict hholdings htakings =>
      rw [hholdings, htakings, hactive]
      rw [hverdict] at hdiffers
      exact h.accept hs.fits hverifying hpiece hindex storage (by rw [hverdict]; rfl) hdiffers.symm
  | failed hactive hverdict hholdings htakings =>
      rw [hholdings, htakings, hactive]
      exact h.fail hverifying hverdict hdiffers

theorem Balanced.shutdown (h : Balanced before judgements givenUp s.holdings s.takings) :
    Balanced before judgements (givenUp + bytesHeld s.unfinished) s.shutdown.holdings
      s.shutdown.takings := by
  refine ⟨h.hashes_eq, h.kept, List.nodup_nil, h.missing, ?_, h.verified_eq, h.pieces_eq,
    h.failures_eq, h.count_eq⟩
  refine h.fetched_eq.trans (congrArg UInt64.ofNat ?_)
  show bytesGained before s.holdings + _ + bytesHeld s.unfinished + bytesOf s.verifying + _
    = bytesGained before s.holdings + _ + 0 + bytesOf s.verifying + (_ + bytesHeld s.unfinished)
  omega

/-- Every other event leaves the holdings and the takings alone, and nothing is judged. -/
theorem Balanced.other (h : Balanced before judgements givenUp s.holdings s.takings)
    (hother : event.isDownload = false) (hopen : event ≠ .shutdown)
    (hstep : s.happen? now event = some s') :
    Balanced before (judgements ++ (s.judges? event).toList) (givenUp + s.gaveUp event)
      s'.holdings s'.takings := by
  have hholdings : s'.holdings = s.holdings := by
    cases happen_cases hstep with
    | quiet s' houtline => exact holdings_of_outline houtline
    | connection number e e' he hrecorded => rfl
    | joined number m s' hfresh hbegins hmembers hhub hholdings => exact hholdings
    | consumed s' hconsume hevent =>
        rw [hevent] at hother
        cases hother
    | finished s' hfinish hevent =>
        rw [hevent] at hother
        cases hother
    | shutdown hevent => exact absurd hevent hopen
  have hjudges : s.judges? event = none := by
    unfold judges?
    split
    · cases hother
    · rfl
  have hgaveUp : s.gaveUp event = 0 := by
    unfold gaveUp
    split
    · cases hother
    · exact absurd rfl hopen
    · rfl
  rw [hjudges, hgaveUp, hholdings, takings_happen hother hstep, Option.toList_none, List.append_nil]
  exact h

theorem balanced_happen (h : Balanced before judgements givenUp s.holdings s.takings)
    (hs : s.Orderly) (hstep : s.happen? now event = some s') :
    Balanced before (judgements ++ (s.judges? event).toList) (givenUp + s.gaveUp event)
      s'.holdings s'.takings := by
  by_cases hshutdown : event = .shutdown
  · subst hshutdown
    cases hstep
    rw [show s.judges? .shutdown = none from rfl, Option.toList_none, List.append_nil]
    exact h.shutdown
  cases hdownload : event.isDownload with
  | false => exact h.other hdownload hshutdown hstep
  | true =>
      unfold Event.isDownload at hdownload
      split at hdownload
      · have hafter := h.consume hs hstep
        rwa [← List.append_nil judgements] at hafter
      · exact h.finishPiece hs hstep
      · cases hdownload

/-! ### Runs -/

variable {ownId : Identifier} {t : TorrentSource} {connectionOptions : ConnectionOptions}
  {policy : ReservationPolicy} {events : List (Nanoseconds × Event)}

theorem orderly_run (hstart : Starts ownId t connectionOptions policy start)
    (hrun : run? events start = some s) : s.Orderly := by
  have hguarded := guarded_run hstart hrun
  have hfits := fits_run (begins_of_starts hstart).1 hrun
  have hgeometry : s.geometry = start.geometry := (constant_run hrun).1
  have hcount : ∀ {index}, Sought start events index → index < s.pieceCount := by
    intro index hsought
    rw [pieceCount, hgeometry]
    exact hsought.lt_pieceCount hstart
  refine ⟨?_, hfits, hguarded.filling, fun piece hpiece => ?_, fun index owner howner => ?_⟩
  · obtain ⟨made, owned, hmake, rfl⟩ := hstart.exists_make
    rw [hgeometry]
    exact Geometry.sound_of_make (made_of_make hmake).geometry_eq
  · obtain ⟨hwhole, hsought⟩ := hguarded.verifying piece hpiece
    exact ⟨hwhole, hfits.pieceCount_eq ▸ hcount hsought⟩
  · exact Nat.lt_trans (hcount ((prompted_run hstart hrun).owner index owner howner))
      s.geometry.pieceCount.toNat_lt

theorem takings_of_make (h : make ownId t connectionOptions policy = .ok s) :
    s.takings = ⟨0, 0, 0, 0⟩ := by
  unfold make at h
  cases hgeometry : Geometry.make t.geometry.totalLength t.geometry.pieceLength
      t.options.blockLength with
  | error e =>
      rw [hgeometry] at h
      cases h
  | ok g =>
      rw [hgeometry] at h
      simp only [bind, Except.bind, pure, Except.pure, throw, throwThe, MonadExceptOf.throw] at h
      repeat' split at h
      all_goals cases h
      all_goals rfl

theorem gained_self (h : Holdings) : h.gained h = ∅ := by
  refine Finset.filter_eq_empty_iff.mpr fun index _ hindex => ?_
  exact Bool.false_ne_true (hindex.2.symm.trans hindex.1)

theorem balanced_of_starts (hstart : Starts ownId t connectionOptions policy start) :
    Balanced start.holdings [] 0 start.holdings start.takings := by
  obtain ⟨made, owned, hmake, rfl⟩ := hstart.exists_make
  have hmade := made_of_make hmake
  have htakings : Session.takings { made with owned := owned } = ⟨0, 0, 0, 0⟩ := by
    show made.takings = _
    exact takings_of_make hmake
  have hunfinished : made.unfinished = .empty := hmade.unfinished_eq
  have hverifying : made.verifying = none := hmade.verifying_eq
  have hgained := gained_self (holdings { made with owned := owned })
  have hbytes : bytesGained (holdings { made with owned := owned })
      (holdings { made with owned := owned }) = 0 := by
    rw [bytesGained, hgained, Finset.sum_empty]
  refine ⟨rfl, fun _ hkept => hkept, ?_, fun piece hpiece => ?_, ?_, ?_, ?_, ?_, ?_⟩
  · rw [show Holdings.unfinished _ = .empty from hunfinished]
    exact List.nodup_nil
  · rw [show Holdings.verifying _ = none from hverifying] at hpiece
    cases hpiece
  · rw [htakings, hbytes, show Holdings.verifying _ = none from hverifying,
      show Holdings.unfinished _ = .empty from hunfinished]
    rfl
  · rw [htakings, hbytes]
    rfl
  · rw [htakings, hgained]
    rfl
  · rw [htakings]
    rfl
  · rw [hgained]
    rfl

theorem balanced_run (hstart : Starts ownId t connectionOptions policy start)
    (hrun : run? events start = some s) :
    Balanced start.holdings (judged events start) (bytesGivenUp events start) s.holdings
      s.takings := by
  refine run_history (Q := fun past s => Balanced start.holdings (judged past start)
    (bytesGivenUp past start) s.holdings s.takings) (balanced_of_starts hstart) ?_ hrun
  intro past now s event s' hpast hbalanced hstep
  have hafter := balanced_happen hbalanced (orderly_run hstart hpast) hstep
  have hsteps := steps_append_singleton hpast hstep
  have hjudged : judged (past ++ [(now, event)]) start
      = judged past start ++ (s.judges? event).toList := by
    rw [judged, hsteps, List.filterMap_append]
    rfl
  have hgivenUp : bytesGivenUp (past ++ [(now, event)]) start
      = bytesGivenUp past start + s.gaveUp event := by
    rw [bytesGivenUp, hsteps, List.map_append, List.sum_append]
    rfl
  rwa [hjudged, hgivenUp]

theorem bytesGivenUp_eq_zero (hrun : run? events start = some s) (hactive : s.cancelled = false) :
    bytesGivenUp events start = 0 := by
  refine run_history (Q := fun past s => s.cancelled = false → bytesGivenUp past start = 0)
    (fun _ => rfl) ?_ hrun hactive
  intro past now s event s' hpast hbefore hstep hactive
  have hactive' : s.cancelled = false := by
    rw [← Bool.not_eq_true]
    intro hcancelled
    have hlater : s'.cancelled = true := cancelled_of_shift (shift_of_happen hstep) hcancelled
    exact Bool.false_ne_true (hactive.symm.trans hlater)
  have hgaveUp : s.gaveUp event = 0 := by
    unfold gaveUp
    split
    · exact if_neg (Bool.eq_false_iff.mp hactive')
    · cases hstep
      cases hactive
    · rfl
  rw [bytesGivenUp, steps_append_singleton hpast hstep, List.map_append, List.sum_append]
  show bytesGivenUp past start + (s.gaveUp event + 0) = 0
  rw [hbefore hactive', hgaveUp]

/-- Whatever blocks come, whoever is asked for them and whatever comes of the pieces: the bytes that
were fetched are in pieces that have come to be owned, in pieces that were judged and failed, in
slots and in the piece that is being verified, and as long as the session is not shut down there are
no others. The pieces that are counted are those that have come to be owned, with their lengths, and
the wrong digests are those of the pieces that were judged. Counters of fetched bytes and of
failures may wrap around, those of verified pieces and bytes cannot. -/
theorem downloads_balance (hstart : Starts ownId t connectionOptions policy start)
    (hrun : run? events start = some s) :
    s.counters.fetchedBytes = UInt64.ofNat (s.counters.verifiedBytes.toNat
        + bytesFailed (judged events start) + bytesHeld s.unfinished + bytesOf s.verifying
        + bytesGivenUp events start)
      ∧ (s.cancelled = false → bytesGivenUp events start = 0)
      ∧ s.counters.verifiedPieces.toNat + start.owned.count = s.owned.count
      ∧ s.counters.verifiedBytes.toNat = ∑ index ∈ Finset.range s.pieceCount with
          s.owned.contains index = true ∧ start.owned.contains index = false,
          (s.geometry.lengthOf ⟨UInt32.ofNat index⟩).toNat
      ∧ s.counters.hashFailures
        = UInt32.ofNat ((judged events start).countP fun j => j.1.differs s.hashes) := by
  have h := balanced_run hstart hrun
  have hsound := (orderly_run hstart hrun).geometry
  have hsubset : start.holdings.gained s.holdings ⊆ Finset.range s.geometry.pieceCount.toNat :=
    Finset.filter_subset _ _
  have hverified : s.counters.verifiedBytes.toNat = start.holdings.bytesGained s.holdings := by
    have hlt := Nat.lt_of_le_of_lt (hsound.sum_lengthOf_le hsubset) s.geometry.totalLength.toNat_lt
    exact (congrArg UInt64.toNat h.verified_eq).trans (UInt64.toNat_ofNat_of_lt' hlt)
  have hpieces : s.counters.verifiedPieces.toNat = (start.holdings.gained s.holdings).card := by
    have hcard := Finset.card_le_card hsubset
    rw [Finset.card_range] at hcard
    have hlt := Nat.lt_of_le_of_lt hcard s.geometry.pieceCount.toNat_lt
    exact (congrArg UInt32.toNat h.pieces_eq).trans (UInt32.toNat_ofNat_of_lt' hlt)
  refine ⟨?_, bytesGivenUp_eq_zero hrun, ?_, hverified, ?_⟩
  · rw [hverified]
    exact h.fetched_eq
  · rw [hpieces, Nat.add_comm]
    exact h.count_eq.symm
  · rw [show s.hashes = start.hashes from h.hashes_eq]
    exact h.failures_eq

/-- A peer that has both pieces sends a wrong byte of the first one. -/
def spoiled : List (Nanoseconds × Event) :=
  let request : Event := .own (.request 0 [])
  let receive : Event := .own (.receive 0)
  ([joins 0 [.bitfield [0xc0], .unchoke, .piece 0 0 [10], .piece 0 1 [0]], request, request, request,
    request, receive, receive, receive, receive, request, request, request, request, receive, receive,
    .own .consume, receive, receive, .own .consume, .own .finishPiece] :
      List Event).map fun event => (0, event)

theorem downloads_balance_spoiled : ∃ start s, Starts .zero twoPieces {} {} start
    ∧ run? spoiled start = some s ∧ s.counters.fetchedBytes = 2 ∧ s.counters.verifiedBytes = 0
    ∧ s.unfinished.isEmpty = true ∧ s.verifying = none
    ∧ UInt64.ofNat (bytesFailed (judged spoiled start)) = 2
    ∧ UInt32.ofNat ((judged spoiled start).countP fun j => j.1.differs s.hashes) = 1
    ∧ start.owned.count = s.owned.count := by
  have hdone : (after? .zero twoPieces {} {} spoiled).any (fun s => decide (s.cancelled = false
      ∧ s.counters = { fetchedBytes := 2, hashFailures := 1 } ∧ s.unfinished.isEmpty = true
      ∧ s.verifying = none)) = true := by
    decide +kernel
  obtain ⟨start, s, hstart, hrun, htest⟩ := exists_run_of_after? hdone
  obtain ⟨hactive, hcounters, hempty, hidle⟩ := of_decide_eq_true htest
  obtain ⟨hfetched, hgivenUp, hpieces, _, hfailures⟩ := downloads_balance hstart hrun
  have hheld : bytesHeld s.unfinished = 0 := by
    rw [bytesHeld, Table.values, List.isEmpty_iff.mp hempty]
    rfl
  rw [hcounters, hheld, hidle, hgivenUp hactive] at hfetched
  rw [hcounters] at hpieces hfailures
  refine ⟨start, s, hstart, hrun, ?_, ?_, hempty, hidle, ?_, hfailures.symm, ?_⟩
  · rw [hcounters]
  · rw [hcounters]
  · refine Eq.trans ?_ hfetched.symm
    show _ = UInt64.ofNat (0 + bytesFailed (judged spoiled start) + 0 + 0 + 0)
    rw [Nat.zero_add]
    rfl
  · exact (Nat.zero_add _).symm.trans hpieces

end Session

end TorrentCore
