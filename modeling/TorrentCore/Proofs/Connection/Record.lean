import TorrentCore.Proofs.Availability
import TorrentCore.Proofs.Connection.Sending

/-!
# The record of a peer's pieces

Of all that the steps of a connection do, only four things concern the record of its peer's pieces
and the counts that go with it: nothing, one more piece, another set, or the end of the run.
`Recorded` says what each of them does, and every step is one of them. No step that the session
takes for a connection, such as sending, touches the record at all.
-/

namespace TorrentCore

namespace Connection

/-- What the others see of a connection: whether it has ended, and the record. -/
structure SameRecord (c c' : Connection) : Prop where
  hasEnded_eq : c'.hasEnded = c.hasEnded
  pieces_eq : c'.pieces = c.pieces

theorem SameRecord.refl (c : Connection) : SameRecord c c := ⟨rfl, rfl⟩

theorem Flagged.sameRecord {c c' : Connection} (h : c.Flagged c') : SameRecord c c' := by
  cases h
  exact ⟨rfl, rfl⟩

theorem hasEnded_of_isRunning {c : Connection} (h : c.isRunning = true) : c.hasEnded = false := by
  unfold isRunning at h
  unfold hasEnded
  split at h
  · next hrunning => rw [hrunning]
  · cases h

end Connection

namespace Endpoint

open Connection

/-- What a step of a connection is for the record of its peer's pieces. -/
inductive Recorded (e : Endpoint) : Endpoint → Prop
  | nothing (e' : Endpoint) (hsame : SameRecord e.connection e'.connection)
      (hcounts : e'.hub.availability = e.hub.availability) : Recorded e e'
  | oneMore (index : Nat) (e' : Endpoint) (hrunning : e.connection.hasEnded = false)
      (hindex : index < e.connection.pieces.pieceCount)
      (hnew : e.connection.pieces.contains index = false)
      (hended : e'.connection.hasEnded = false)
      (hpieces : e'.connection.pieces = e.connection.pieces.insert index)
      (hcounts : e'.hub.availability = e.hub.availability.increment index) : Recorded e e'
  | another (bits : Bytes) (e' : Endpoint) (hrunning : e.connection.hasEnded = false)
      (hended : e'.connection.hasEnded = false)
      (hpieces : e.connection.pieces.overwrite bits = .ok e'.connection.pieces)
      (hcounts : e'.hub.availability
        = (e.hub.availability.remove e.connection.pieces).add e'.connection.pieces) : Recorded e e'
  | ended (e' : Endpoint) (hrunning : e.connection.hasEnded = false)
      (hended : e'.connection.hasEnded = true)
      (hpieces : e'.connection.pieces = e.connection.pieces)
      (hcounts : e'.hub.availability = e.hub.availability.remove e.connection.pieces) :
      Recorded e e'

theorem recorded_finish {e : Endpoint} (hrunning : e.connection.hasEnded = false)
    (result : Except Error Unit) : Recorded e (e.finish result) :=
  .ended _ hrunning rfl rfl rfl

theorem Recorded.of_same {e e' e'' : Endpoint} (h : Recorded e' e'')
    (hsame : SameRecord e.connection e'.connection)
    (hcounts : e'.hub.availability = e.hub.availability) : Recorded e e'' := by
  obtain ⟨hended, hpieces⟩ := hsame
  cases h with
  | nothing e'' hsame' hcounts' =>
      exact .nothing e'' ⟨hsame'.hasEnded_eq.trans hended, hsame'.pieces_eq.trans hpieces⟩
        (hcounts'.trans hcounts)
  | oneMore index e'' hrunning hindex hnew hended' hpieces' hcounts' =>
      rw [hpieces] at hindex hnew hpieces'
      rw [hcounts] at hcounts'
      exact .oneMore index e'' (hended ▸ hrunning) hindex hnew hended' hpieces' hcounts'
  | another bits e'' hrunning hended' hpieces' hcounts' =>
      rw [hpieces] at hpieces' hcounts'
      rw [hcounts] at hcounts'
      exact .another bits e'' (hended ▸ hrunning) hended' hpieces' hcounts'
  | ended e'' hrunning hended' hpieces' hcounts' =>
      rw [hpieces] at hpieces' hcounts'
      rw [hcounts] at hcounts'
      exact .ended e'' (hended ▸ hrunning) hended' hpieces' hcounts'

/-! ### Reading -/

theorem recorded_applyHave {e : Endpoint} (hrunning : e.connection.hasEnded = false)
    (index : Nat) : Recorded e (e.applyHave index) := by
  unfold applyHave
  split
  · next pieces hmark =>
    obtain ⟨hindex, hnew, rfl⟩ := Bitfield.mark_eq_ok_iff.mp hmark
    exact .oneMore index _ hrunning hindex (by simpa using hnew.symm) hrunning rfl rfl
  · next pieces hmark =>
    obtain ⟨_, hold, rfl⟩ := Bitfield.mark_eq_ok_iff.mp hmark
    exact .nothing _ ⟨rfl, Bitfield.insert_of_contains (by simpa using hold.symm)⟩ rfl
  · exact .nothing _ (.refl _) rfl

theorem recorded_apply {e e' : Endpoint} {now : Nanoseconds} {m : Message}
    (hrunning : e.connection.hasEnded = false) (h : e.apply now m = .ok e') : Recorded e e' := by
  cases m with
  | keepAlive =>
      cases h
      exact .nothing _ (.refl _) rfl
  | choke =>
      cases h
      exact .nothing _ (flagged_setAmChoked _ _ _).sameRecord rfl
  | unchoke =>
      cases h
      exact .nothing _ (flagged_setAmChoked _ _ _).sameRecord rfl
  | interested =>
      cases h
      exact .nothing _ (flagged_setPeerInterested _ _ _).sameRecord rfl
  | notInterested =>
      cases h
      exact .nothing _ (flagged_setPeerInterested _ _ _).sameRecord rfl
  | has index =>
      cases h
      exact recorded_applyHave hrunning index.toNat
  | bitfield bits =>
      rw [apply, applyBitfield] at h
      split at h
      · next pieces htaken =>
        cases h
        exact .another bits _ hrunning hrunning htaken rfl
      · cases h
  | request r | cancel r | piece index offset bytes =>
      cases h
      exact .nothing _ ⟨rfl, rfl⟩ rfl

theorem recorded_receive {e e' : Endpoint} {now : Nanoseconds} (h : e.receive? now = some e') :
    Recorded e e' := by
  unfold receive? at h
  simp only at h
  split at h
  · cases h
  next hnot =>
  rw [Bool.not_eq_true', Bool.not_eq_false] at hnot
  have hrunning := hasEnded_of_isRunning hnot
  cases hphase : e.connection.reader with
  | decoding =>
      rw [hphase] at h
      simp only at h
      split at h
      · next m rest _ =>
        split at h
        · next e'' happly =>
          cases h
          refine Recorded.of_same (recorded_apply ?_ happly) ⟨rfl, rfl⟩ rfl
          exact hrunning
        · cases h
          exact .ended _ hrunning rfl rfl rfl
      · cases h
        exact recorded_finish hrunning _
      · cases h
        exact .nothing _ ⟨rfl, rfl⟩ rfl
  | reading deadline =>
      rw [hphase] at h
      simp only at h
      split at h
      · cases h
        exact recorded_finish hrunning _
      · cases h
        exact recorded_finish hrunning _
      · cases h
        exact recorded_finish hrunning _
      · cases h
        exact .nothing _ ⟨rfl, rfl⟩ rfl
      · split at h
        · cases h
          exact recorded_finish hrunning _
        · cases h
  | offeringBlock block =>
      rw [hphase] at h
      simp only at h
      split at h
      · cases h
        exact .nothing _ ⟨rfl, rfl⟩ rfl
      · cases h
      · cases h
        exact recorded_finish hrunning _
  | offeringUpload request =>
      rw [hphase] at h
      simp only at h
      split at h
      · cases h
        exact .nothing _ ⟨rfl, rfl⟩ rfl
      · cases h
      · cases h
        exact recorded_finish hrunning _

/-! ### Writing, ending and sending -/

theorem recorded_transmit {e e' : Endpoint} {now : Nanoseconds} (h : e.transmit? now = some e') :
    Recorded e e' := by
  unfold transmit? at h
  simp only at h
  split at h
  · cases h
  next hnot =>
  rw [Bool.not_eq_true', Bool.not_eq_false] at hnot
  have hrunning := hasEnded_of_isRunning hnot
  split at h
  · split at h
    · cases h
      exact .nothing _ ⟨rfl, rfl⟩ rfl
    · split at h
      · cases h
        exact .nothing _ ⟨rfl, rfl⟩ rfl
      · cases h
  · cases h
    exact .nothing _ ⟨rfl, rfl⟩ rfl
  · split at h
    · cases h
      exact recorded_finish hrunning _
    · split at h
      · cases h
        exact .nothing _ ⟨rfl, rfl⟩ rfl
      · split at h
        · cases h
          exact recorded_finish hrunning _
        · cases h

theorem pieces_transmit {e e' : Endpoint} {now : Nanoseconds} (h : e.transmit? now = some e') :
    e'.connection.pieces = e.connection.pieces := by
  unfold transmit? at h
  simp only at h
  repeat' split at h
  all_goals first
    | (cases h; rfl)
    | cases h

theorem recorded_stop {e e' : Endpoint} (h : e.stop? = some e') : Recorded e e' := by
  unfold stop? at h
  split at h
  · next hrunning =>
    rw [Bool.and_eq_true] at hrunning
    cases h
    exact recorded_finish (hasEnded_of_isRunning hrunning.1) _
  · cases h

theorem pieces_stop {e e' : Endpoint} (h : e.stop? = some e') :
    e'.connection.pieces = e.connection.pieces := by
  unfold stop? at h
  split at h
  · cases h
    rfl
  · cases h

theorem sameRecord_send_sent {e e' : Endpoint} {now : Nanoseconds} {late : Bool} {p : Parcel}
    (h : e.send now late p = .sent e') : SameRecord e.connection e'.connection
      ∧ e'.hub.availability = e.hub.availability := by
  obtain ⟨queue, -, rfl⟩ := send_eq_sent h
  have hnoted := (e.flagged_accept now p queue).sameRecord
  exact ⟨⟨hnoted.hasEnded_eq, hnoted.pieces_eq⟩, rfl⟩

theorem sameRecord_send_refused {e e' : Endpoint} {now : Nanoseconds} {late : Bool} {p : Parcel}
    {cause : Error} (h : e.send now late p = .refused cause e') :
    SameRecord e.connection e'.connection ∧ e'.hub.availability = e.hub.availability := by
  obtain ⟨rfl, -⟩ := send_eq_refused h
  exact ⟨.refl _, rfl⟩

end Endpoint

/-! ### Counting -/

/-- The connection has not ended, and the peer has told of this piece. -/
def Connection.holds (c : Connection) (index : Nat) : Bool := !c.hasEnded && c.pieces.contains index

theorem Connection.SameRecord.holds_eq {c c' : Connection} (h : SameRecord c c') (index : Nat) :
    c'.holds index = c.holds index := by
  rw [holds, holds, h.hasEnded_eq, h.pieces_eq]

namespace Endpoint

/-- Every piece is counted once for this connection if it holds it, and as often as `others` says
besides. -/
structure Counted (others : Nat → Nat) (e : Endpoint) : Prop where
  fits : e.hub.availability.Fits e.connection.pieces
  count_eq : ∀ index, (e.hub.availability.get index).toNat
    = others index + (e.connection.holds index).toNat

theorem holds_of_running {c : Connection} (h : c.hasEnded = false) (index : Nat) :
    c.holds index = c.pieces.contains index := by
  rw [Connection.holds, h]
  rfl

theorem Counted.of_recorded {others : Nat → Nat} {e e' : Endpoint} (h : e.Counted others)
    (hrecorded : e.Recorded e') (hroom : ∀ index, others index + 1 < 4294967296) :
    e'.Counted others ∧ e'.connection.pieces.pieceCount = e.connection.pieces.pieceCount := by
  have hfits := h.fits
  cases hrecorded with
  | nothing e' hsame hcounts =>
      refine ⟨⟨?_, fun index => ?_⟩, congrArg Bitfield.pieceCount hsame.pieces_eq⟩
      · rw [hcounts, hsame.pieces_eq]
        exact hfits
      · rw [hcounts, hsame.holds_eq]
        exact h.count_eq index
  | oneMore index e' hrunning hindex hnew hended hpieces hcounts =>
      refine ⟨⟨?_, fun index' => ?_⟩, (congrArg Bitfield.pieceCount hpieces).trans rfl⟩
      · rw [hcounts, hpieces]
        exact ⟨hfits.1.insert index, hfits.2.trans (Availability.length_increment _ _).symm⟩
      · have hcount := h.count_eq index'
        have hfree := hroom index'
        rw [holds_of_running hrunning] at hcount
        rw [hcounts, holds_of_running hended, hpieces, Bitfield.contains_insert hfits.1 hindex]
        by_cases he : index' = index
        · subst he
          rw [hnew] at hcount ⊢
          rw [Availability.toNat_get_increment (hfits.2 ▸ hindex) (by rw [hcount]; exact hfree),
            hcount, decide_eq_true rfl]
          rfl
        · rw [Availability.get_increment (hfits.2 ▸ hindex), if_neg he, hcount, decide_eq_false he,
            Bool.or_false]
  | another bits e' hrunning hended hpieces hcounts =>
      obtain ⟨hwell, hsize⟩ := Bitfield.wellFormed_overwrite hpieces
      have hnew : (e.hub.availability.remove e.connection.pieces).Fits e'.connection.pieces :=
        Availability.Fits.adjust ⟨hwell, hsize.trans hfits.2⟩ _ _
      refine ⟨⟨?_, fun index => ?_⟩, hsize⟩
      · rw [hcounts]
        exact hnew.adjust _ _
      · have hcount := h.count_eq index
        have hfree := hroom index
        have hremoved := Availability.toNat_get_remove hfits index
        rw [holds_of_running hrunning] at hcount
        have hless : ((e.hub.availability.remove e.connection.pieces).get index).toNat
            = others index := by omega
        rw [hcounts, holds_of_running hended,
          Availability.toNat_get_add hnew (by rw [hless]; exact hfree), hless]
  | ended e' hrunning hended hpieces hcounts =>
      refine ⟨⟨?_, fun index => ?_⟩, congrArg Bitfield.pieceCount hpieces⟩
      · rw [hcounts, hpieces]
        exact hfits.adjust _ _
      · have hcount := h.count_eq index
        have hremoved := Availability.toNat_get_remove hfits index
        rw [holds_of_running hrunning] at hcount
        rw [hcounts, Connection.holds, hended, Bool.not_true, Bool.false_and]
        show _ = others index + 0
        omega

end Endpoint

end TorrentCore
