import TorrentCore.Proofs.Session.Handling
import TorrentCore.Proofs.Session.Listing
import TorrentCore.Proofs.Session.Soliciting
import TorrentCore.Proofs.Session.Tenure
import TorrentCore.Proofs.Session.Uploading

/-!
# What a session has to say

Whatever a session is about to say of its pieces is true: its bit field has the bits of the pieces
that it owns and no others, and every announcement that waits is of a piece that it owns. Every
frame is well-formed, and a connection that is at work and was not told to end is listed, so that
new pieces are announced to it.
-/

namespace TorrentCore

namespace Session

variable {start s s' : Session} {past : List (Nanoseconds × Event)} {now : Nanoseconds}
  {event : Event} {number index : Nat} {ownId : Identifier} {t : TorrentSource}
  {connectionOptions : ConnectionOptions} {policy : ReservationPolicy}

def AnnouncesOwned (s : Session) : Prop :=
  ∀ a ∈ s.announcements, ∃ index < s.pieceCount, s.owned.contains index = true
    ∧ a.parcel.Carries (.has (UInt32.ofNat index))

/-- What a session that was reached has at hand to say, and to whom. -/
structure Equipped (start : Session) (past : List (Nanoseconds × Event)) (s : Session) : Prop
    extends Serves start past s where
  fits : s.Fits
  trimmed : s.owned.Trimmed
  announces : AnnouncesOwned s
  listsLive : ListsLive s.register
  told : AllTold start past s

theorem announcements_of_handled {board : Board} (h : s.Handled now event board) :
    ∀ a ∈ board.announcements, a ∈ s.announcements := by
  cases h with
  | announced position | unannounced position => exact fun a ha => List.mem_of_mem_eraseIdx ha
  | shutdown => exact fun a ha => absurd ha List.not_mem_nil
  | _ => exact fun a ha => ha

theorem announcesOwned_happen (hfits : s.Fits) (hclean : s.hub.packetPool.Clean)
    (h : AnnouncesOwned s) (hstep : s.happen? now event = some s') : AnnouncesOwned s' := by
  have hgains := gains_happen hstep
  have hbefore : ∀ a ∈ s.announcements, ∃ index < s'.pieceCount, s'.owned.contains index = true
      ∧ a.parcel.Carries (.has (UInt32.ofNat index)) := by
    intro a ha
    obtain ⟨index, hindex, howned, hcarries⟩ := h a ha
    exact ⟨index, hgains.pieceCount_eq ▸ hindex, hgains.contains hfits howned, hcarries⟩
  intro a ha
  have ha' : a ∈ s'.board.announcements := ha
  rcases handled_of_happen hstep with ⟨_, hhandled⟩ | ⟨_, index, new, hannounces⟩
  · exact hbefore a (announcements_of_handled hhandled a ha')
  · rw [hannounces.board_eq] at ha'
    rcases List.mem_append.mp ha' with hold | hnew
    · exact hbefore a hold
    · refine ⟨index, ?_, ?_, hannounces.carries hclean a hnew⟩
      · rw [hgains.pieceCount_eq, ← hfits.pieceCount_eq]
        exact hannounces.lt
      · rw [hannounces.owned_eq, Bitfield.contains_insert hfits.wellFormed hannounces.lt,
          decide_eq_true rfl, Bool.or_true]

theorem trimmed_happen (hfits : s.Fits) (h : s.owned.Trimmed)
    (hstep : s.happen? now event = some s') : s'.owned.Trimmed := by
  rcases (gains_happen hstep).owned_eq with howned | ⟨index, hindex, howned⟩
  · exact howned ▸ h
  · exact howned ▸ h.insert hfits.wellFormed hindex

theorem trimmed_of_make (h : make ownId t connectionOptions policy = .ok s) :
    s.owned.Trimmed ∧ s.announcements = [] := by
  unfold make at h
  cases hgeometry : Geometry.make t.geometry.totalLength t.geometry.pieceLength
      t.options.blockLength with
  | error e =>
      rw [hgeometry] at h
      cases h
  | ok g =>
      rw [hgeometry] at h
      simp only [bind, Except.bind, pure, Except.pure, throw, throwThe, MonadExceptOf.throw] at h
      repeat' split at h
      all_goals cases h
      all_goals first
        | exact ⟨Bitfield.trimmed_empty _, rfl⟩
        | exact ⟨Bitfield.trimmed_ofBytes ‹_›, rfl⟩

theorem trimmed_of_starts (h : Starts ownId t connectionOptions policy start) :
    start.owned.Trimmed := by
  cases h with
  | unchecked _ hmake => exact (trimmed_of_make hmake).1
  | @checked s _ hmake =>
      have hfits := (begins_of_make hmake).1
      obtain ⟨owned, howned, hchecked⟩ := checkExisting_induction (s := s)
        (P := fun owned => owned.WellFormed ∧ owned.pieceCount = s.pieceCount ∧ owned.Trimmed)
        ⟨hfits.wellFormed, hfits.pieceCount_eq, (trimmed_of_make hmake).1⟩
        fun owned index _ howned hindex _ _ => ⟨howned.1.insert index, howned.2.1,
          howned.2.2.insert howned.1 (howned.2.1 ▸ hindex)⟩
      rw [hchecked]
      exact howned.2.2

theorem equipped_run (hstart : Starts ownId t connectionOptions policy start)
    (hrun : run? past start = some s) : Equipped start past s := by
  have hserves : ∀ {past s}, run? past start = some s → Serves start past s := fun hrun =>
    run_history (Q := Serves start) (serves_of_starts hstart) serves_happen hrun
  have hbegins := begins_of_starts hstart
  have hfits : ∀ {past s}, run? past start = some s → s.Fits := fun hrun => fits_run hbegins.1 hrun
  refine ⟨hserves hrun, hfits hrun, ?_, ?_, ?_, allTold_run hstart hrun⟩
  · exact run_history (Q := fun _ s => s.owned.Trimmed) (trimmed_of_starts hstart)
      (fun hpast h hstep => trimmed_happen (hfits hpast) h hstep) hrun
  · refine run_history (Q := fun _ s => AnnouncesOwned s) ?_ (fun hpast h hstep =>
      announcesOwned_happen (hfits hpast) (hserves hpast).clean h hstep) hrun
    obtain ⟨made, owned, hmake, rfl⟩ := hstart.exists_make
    intro a ha
    rw [show Session.announcements _ = [] from (trimmed_of_make hmake).2] at ha
    cases ha
  · refine run_history (Q := fun _ s => ListsLive s.register) (fun number d hduty => ?_)
      (fun hpast h hstep => listsLive_happen h (tenured_run hstart hpast).hasEnded hstep) hrun
    rw [hbegins.2.2] at hduty
    cases hduty

theorem Equipped.pieceCount_le (h : Equipped start past s) : s.owned.pieceCount ≤ 4294967296 := by
  have hcount : s.pieceCount = s.geometry.lastPiece.toNat + 1 := h.geometry.toNat_pieceCount
  have hlast := s.geometry.lastPiece.toNat_lt
  rw [h.fits.pieceCount_eq]
  omega

theorem eq_of_carries {p : Parcel} {other : Nat} (hindex : index < 4294967296)
    (hother : other < 4294967296) (h : p.Carries (.has (UInt32.ofNat index)))
    (h' : p.Carries (.has (UInt32.ofNat other))) : index = other := by
  have hsame := Message.has.inj (Option.some.inj (h.message_eq.symm.trans h'.message_eq))
  rw [← UInt32.toNat_ofNat_of_lt' hindex, hsame, UInt32.toNat_ofNat_of_lt' hother]

theorem Equipped.announced (h : Equipped start past s) {a : Announcement}
    (ha : a ∈ s.announcements) : ∃ index < s.owned.pieceCount, s.owned.contains index = true
      ∧ a.parcel.Carries (.has (UInt32.ofNat index)) ∧ ∀ other < s.owned.pieceCount,
        a.parcel.Carries (.has (UInt32.ofNat other)) → other = index := by
  obtain ⟨index, hindex, howned, hcarries⟩ := h.announces a ha
  have hword := h.pieceCount_le
  rw [← h.fits.pieceCount_eq] at hindex
  exact ⟨index, hindex, howned, hcarries, fun other hother hcarries' =>
    eq_of_carries (Nat.lt_of_lt_of_le hother hword) (Nat.lt_of_lt_of_le hindex hword) hcarries'
      hcarries⟩

theorem isFramed_of_fetched (hstart : Starts ownId t connectionOptions policy start)
    (hframes : t.options.maxRequest.toNat + 9 < 4294967296) {r : BlockRequest} {block : Bytes}
    (h : Fetched start past number r block) : (Message.piece r.index r.offset block).IsFramed := by
  obtain ⟨before, read, _, _, ⟨picked, granting, u, rest, _, hgranting, _, rfl, hgrants⟩, hblock⟩ :=
    h
  have hlength := length_of_requested hblock
  have hpos := hgrants.legal.length_pos
  have hle := hgrants.legal.length_le
  have hoptions : granting.options = t.options := by
    obtain ⟨made, owned, hmake, rfl⟩ := hstart.exists_make
    exact (constant_run hgranting).2.trans (made_of_make hmake).options_eq
  rw [hoptions] at hle
  refine Message.isFramed_piece ?_ (by omega)
  rintro rfl
  rw [List.length_nil] at hlength
  omega

end Session

end TorrentCore
