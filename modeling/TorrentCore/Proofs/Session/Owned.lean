import TorrentCore.Proofs.Bitfield
import TorrentCore.Proofs.Session.Register
import TorrentCore.Proofs.Session.Turn

/-!
# What is owned stays owned

Whatever a session starts with, its set of owned pieces is a set of its own pieces and only grows.
So a session that is finished stays finished.
-/

namespace TorrentCore

namespace Session

structure Fits (s : Session) : Prop where
  wellFormed : s.owned.WellFormed
  pieceCount_eq : s.owned.pieceCount = s.pieceCount

/-- One piece more is owned, or none. -/
structure Gains (s s' : Session) : Prop where
  geometry_eq : s'.geometry = s.geometry
  options_eq : s'.options = s.options
  owned_eq : s'.owned = s.owned
    ∨ ∃ index < s.owned.pieceCount, s'.owned = s.owned.insert index

theorem gains_of_holdings {s s' : Session} (hgeometry : s'.holdings.geometry = s.holdings.geometry)
    (hoptions : s'.holdings.options = s.holdings.options)
    (howned : s'.holdings.owned = s.holdings.owned) : s.Gains s' :=
  ⟨hgeometry, hoptions, Or.inl howned⟩

theorem gains_happen {now : Nanoseconds} {s s' : Session} {event : Event}
    (h : s.happen? now event = some s') : s.Gains s' := by
  cases happen_cases h with
  | quiet s' houtline =>
      have hholdings : s'.holdings = s.holdings := holdings_of_outline houtline
      refine gains_of_holdings ?_ ?_ ?_ <;> rw [hholdings]
  | connection number e e' he hrecorded => exact gains_of_holdings rfl rfl rfl
  | joined number m s' hfresh hbegins hmembers hhub hholdings =>
      refine gains_of_holdings ?_ ?_ ?_ <;> rw [hholdings]
  | consumed s' hconsume =>
      obtain ⟨block, piece, next, before, hbefore, _, _, hmerge, hafter⟩ := consume_cases hconsume
      obtain ⟨unfinished, hnext⟩ := hmerge.outline_eq
      have hholdings : before.holdings = s.holdings := holdings_of_outline hbefore
      refine gains_of_holdings ?_ ?_ ?_ <;>
        rw [holdings_of_outline hafter, holdings_of_outline hnext, hholdings]
  | finished s' hfinish =>
      obtain ⟨piece, _, hfinishing⟩ := finishPiece_cases hfinish
      cases hfinishing with
      | notStored houtline =>
          refine gains_of_holdings ?_ ?_ ?_ <;> rw [holdings_of_outline houtline]
      | stored storage hverdict houtline =>
          refine gains_of_holdings ?_ ?_ ?_ <;> rw [holdings_of_outline houtline]
      | marked storage hverdict hindex houtline =>
          have hholdings := holdings_of_outline houtline
          exact ⟨congrArg Holdings.geometry hholdings, congrArg Holdings.options hholdings,
            Or.inr ⟨piece.piece, hindex, congrArg Holdings.owned hholdings⟩⟩
  | shutdown => exact gains_of_holdings rfl rfl rfl

/-- Only when a piece is finished may it come to be owned. -/
theorem owned_eq_of_happen {now : Nanoseconds} {s s' : Session} {event : Event}
    (h : s.happen? now event = some s') (hother : event ≠ .own .finishPiece) :
    s'.owned = s.owned := by
  cases happen_cases h with
  | finished s' hfinish hevent => exact absurd hevent hother
  | quiet s' houtline => exact congrArg Holdings.owned (holdings_of_outline houtline)
  | connection number e e' he hrecorded => rfl
  | joined number m s' hfresh hbegins hmembers hhub hholdings =>
      exact congrArg Holdings.owned hholdings
  | consumed s' hconsume =>
      obtain ⟨_, _, _, _, hbefore, _, _, hmerge, hafter⟩ := consume_cases hconsume
      obtain ⟨_, hnext⟩ := hmerge.outline_eq
      have howned := congrArg Holdings.owned (holdings_of_outline hafter)
      have hmerged := congrArg Holdings.owned (holdings_of_outline hnext)
      exact howned.trans (hmerged.trans (congrArg Holdings.owned (holdings_of_outline hbefore)))
  | shutdown => exact congrArg Holdings.owned (holdings_of_outline (outline_shutdown s))

theorem Gains.pieceCount_eq {s s' : Session} (h : s.Gains s') : s'.pieceCount = s.pieceCount :=
  congrArg (fun g => g.pieceCount.toNat) h.geometry_eq

theorem Gains.fits {s s' : Session} (h : s.Gains s') (hfits : s.Fits) : s'.Fits := by
  rcases h.owned_eq with howned | ⟨index, _, howned⟩
  · exact ⟨howned ▸ hfits.wellFormed, by rw [howned, h.pieceCount_eq, hfits.pieceCount_eq]⟩
  · exact ⟨howned ▸ hfits.wellFormed.insert index, by
      rw [howned, h.pieceCount_eq, ← hfits.pieceCount_eq, Bitfield.insert]⟩

theorem Gains.contains {s s' : Session} (h : s.Gains s') (hfits : s.Fits) {index : Nat}
    (hindex : s.owned.contains index = true) : s'.owned.contains index = true := by
  rcases h.owned_eq with howned | ⟨index', hcount, howned⟩
  · rw [howned]
    exact hindex
  · rw [howned, Bitfield.contains_insert hfits.wellFormed hcount, hindex, Bool.true_or]

theorem Gains.isFinished {s s' : Session} (h : s.Gains s') (hfits : s.Fits)
    (hfinished : s.isFinished = true) : s'.isFinished = true := by
  unfold Session.isFinished at hfinished ⊢
  rw [h.options_eq]
  split at hfinished
  · next allowed hallowed =>
    rw [List.all_eq_true] at hfinished ⊢
    intro index hindex
    have hbefore := hfinished index hindex
    rw [Bool.or_eq_true] at hbefore ⊢
    exact hbefore.imp_right (h.contains hfits)
  · next hall =>
    rw [Bitfield.hasAll_iff hfits.wellFormed] at hfinished
    rw [Bitfield.hasAll_iff (h.fits hfits).wellFormed]
    intro index hindex
    refine h.contains hfits (hfinished index ?_)
    rwa [(h.fits hfits).pieceCount_eq, h.pieceCount_eq, ← hfits.pieceCount_eq] at hindex

theorem constant_run {events : List (Nanoseconds × Event)} {s s' : Session}
    (hrun : run? events s = some s') : s'.geometry = s.geometry ∧ s'.options = s.options := by
  refine run_invariant (P := fun r => r.geometry = s.geometry ∧ r.options = s.options) ?_
    ⟨rfl, rfl⟩ hrun
  rintro now r event r' ⟨hgeometry, hoptions⟩ hstep
  have hgains := gains_happen hstep
  exact ⟨hgains.geometry_eq.trans hgeometry, hgains.options_eq.trans hoptions⟩

theorem fits_run {events : List (Nanoseconds × Event)} {s s' : Session} (hfits : s.Fits)
    (hrun : run? events s = some s') : s'.Fits :=
  run_invariant (P := Fits) (fun h hstep => (gains_happen hstep).fits h) hfits hrun

theorem pieceCount_run {events : List (Nanoseconds × Event)} {s s' : Session} (hfits : s.Fits)
    (hrun : run? events s = some s') : s'.owned.pieceCount = s.pieceCount :=
  (fits_run hfits hrun).pieceCount_eq.trans
    (congrArg (fun g => g.pieceCount.toNat) (constant_run hrun).1)

theorem contains_run {events : List (Nanoseconds × Event)} {s s' : Session} {index : Nat}
    (hfits : s.Fits) (hrun : run? events s = some s') (hindex : s.owned.contains index = true) :
    s'.owned.contains index = true :=
  (run_invariant (P := fun r => r.Fits ∧ r.owned.contains index = true)
    (fun h hstep => ⟨(gains_happen hstep).fits h.1, (gains_happen hstep).contains h.1 h.2⟩)
    ⟨hfits, hindex⟩ hrun).2

theorem isFinished_run {events : List (Nanoseconds × Event)} {s s' : Session} (hfits : s.Fits)
    (hrun : run? events s = some s') (hfinished : s.isFinished = true) : s'.isFinished = true :=
  (run_invariant (P := fun r => r.Fits ∧ r.isFinished = true)
    (fun h hstep => ⟨(gains_happen hstep).fits h.1, (gains_happen hstep).isFinished h.1 h.2⟩)
    ⟨hfits, hfinished⟩ hrun).2

/-! ### The start -/

theorem begins_of_make {ownId : Identifier} {t : TorrentSource}
    {connectionOptions : ConnectionOptions} {policy : ReservationPolicy} {s : Session}
    (h : make ownId t connectionOptions policy = .ok s) :
    s.Fits ∧ s.verifying = none ∧ s.register
      = ⟨t.infoHash, ownId, .empty s.pieceCount, .empty, .empty, false, false, fun _ => none⟩ := by
  unfold make at h
  cases hgeometry : Geometry.make t.geometry.totalLength t.geometry.pieceLength
      t.options.blockLength with
  | error e =>
      rw [hgeometry] at h
      cases h
  | ok g =>
      rw [hgeometry] at h
      simp only [bind, Except.bind, pure, Except.pure, throw, throwThe, MonadExceptOf.throw] at h
      have hempty := Bitfield.wellFormed_empty g.pieceCount.toNat
      -- What is owned first, and whether there is a mask.
      repeat' split at h
      all_goals cases h
      all_goals refine ⟨?_, rfl, rfl⟩
      all_goals first
        | exact ⟨hempty, rfl⟩
        | exact ⟨(Bitfield.wellFormed_ofBytes ‹_›).1, (Bitfield.wellFormed_ofBytes ‹_›).2⟩

theorem begins_of_starts {ownId : Identifier} {t : TorrentSource}
    {connectionOptions : ConnectionOptions} {policy : ReservationPolicy} {s : Session}
    (h : Starts ownId t connectionOptions policy s) :
    s.Fits ∧ s.verifying = none ∧ s.register
      = ⟨t.infoHash, ownId, .empty s.pieceCount, .empty, .empty, false, false, fun _ => none⟩ := by
  cases h with
  | unchecked _ hmake => exact begins_of_make hmake
  | @checked s _ hmake =>
      obtain ⟨hfits, hidle, hregister⟩ := begins_of_make hmake
      obtain ⟨owned, howned, hchecked⟩ := checkExisting_induction (s := s)
        (P := fun owned => owned.WellFormed ∧ owned.pieceCount = s.pieceCount)
        ⟨hfits.wellFormed, hfits.pieceCount_eq⟩
        fun owned index _ howned _ _ _ => ⟨howned.1.insert index, howned.2⟩
      rw [hchecked]
      exact ⟨⟨howned.1, howned.2⟩, hidle, hregister⟩

end Session

end TorrentCore
