import TorrentCore.Proofs.Session.Admission
import TorrentCore.Proofs.Session.Greeting

/-!
# Taking leave

When all is there a requester looks at the record of its peer for the last time. If the peer has
told of every piece the connection ends. Otherwise the requester only gives up, since the peer may
go on to fetch from us, and nobody looks at the record again.
-/

namespace TorrentCore

namespace Session

variable {start s s' : Session} {past : List (Nanoseconds × Event)} {now : Nanoseconds}
  {event : Event} {number index : Nat} {m m' : Member} {ownId : Identifier} {t : TorrentSource}
  {connectionOptions : ConnectionOptions} {policy : ReservationPolicy}

/-- The requester of a connection took its leave before its peer had announced every piece. -/
def LeftEarly (start : Session) (past : List (Nanoseconds × Event)) (number : Nat) : Prop :=
  Happened start past fun earlier s event _ => ∃ coins m, event = .own (.request number coins)
    ∧ s.members.get? number = some m ∧ m.requester = .parting ∧ s.isFinished = true
    ∧ ∃ index < s.pieceCount, ¬ Announced start earlier number index

/-- What was announced over a connection stands in its record. -/
def KnowsAnnounced (start : Session) (past : List (Nanoseconds × Event)) (s : Session)
    (number : Nat) :
    Prop :=
  ∀ m, s.members.get? number = some m → ∀ index < s.pieceCount,
    Announced start past number index → m.connection.pieces.contains index = true

def Explains (start : Session) (past : List (Nanoseconds × Event)) (s : Session) (number : Nat) :
    Prop :=
  ∀ m, s.members.get? number = some m → m.isLive = true → m.requester.final = .retired →
    LeftEarly start past number ∨ LookedWhilePaused start past number

/-! ### The last look -/

theorem asked_of_final_ne {d d' : Duty} (h : s.happen? now event = some s')
    (hduty : s.register.duty number = some d) (hduty' : s'.register.duty number = some d')
    (hrunning : d'.fate.status = .running) (hne : d'.requester.final ≠ d.requester.final) :
    ∃ coins, event = .own (.request number coins) := by
  obtain ⟨d'', hd'', hchange⟩ := change_of_shift (shift_of_happen h) hduty
  cases hd''.symm.trans hduty'
  cases hchange with
  | asked coins r refused hevent => exact ⟨coins, hevent⟩
  | closedOut hended =>
      rw [Duty.hasEnded, show d.fate.status = _ from hrunning] at hended
      cases hended
  | _ => exact absurd rfl hne

theorem lacks_of_parting {coins : List Bool} (h : s.request? now number coins = some s')
    (hm : s.members.get? number = some m) (hm' : s'.members.get? number = some m')
    (hlive : m'.isLive = true) (hparting : m.requester.final = .parting)
    (hretired : m'.requester.final = .retired) :
    m.requester = .parting ∧ m.connection.pieces.hasAll = false := by
  have hduty := duty_of_member hm
  have hduty' := duty_of_member hm'
  have hkept : ∀ {d : Duty}, some d.tell ≠ some (duty m') := by
    rintro d hd
    have hcancelled := congrArg (fun d : Duty => d.fate.cancelled) (Option.some.inj hd)
    rw [Member.isLive, ← show true = m'.connection.cancelled from hcancelled] at hlive
    simp at hlive
  have hnow : m.requester = .parting := by
    obtain ⟨d, hd, _, _, hmove⟩ := move_request h
    cases hduty.symm.trans hd
    generalize s'.register = r at hmove hduty'
    cases hmove with
    | onward r honward =>
        rw [Register.duty_modify, if_pos rfl, hduty] at hduty'
        have hfinal : r.final = .retired :=
          (congrArg (fun d : Duty => d.requester.final) (Option.some.inj hduty')).trans hretired
        cases hparting.symm.trans (honward hfinal)
    | paused hchoosing =>
        cases hparting.symm.trans (congrArg Requester.final hchoosing)
    | refused p after _ =>
        rw [Register.duty_modify, if_pos rfl, Register.duty_modify, if_pos rfl, hduty] at hduty'
        exact absurd hduty' hkept
    | parted told hnow => exact hnow
    | claimed index reservations cursor hclaiming =>
        cases hparting.symm.trans (congrArg Requester.final hclaiming)
  refine ⟨hnow, Bool.eq_false_iff.mpr fun hall => ?_⟩
  have hrunning : m.connection.isRunning = true := by
    by_contra hidle
    simp [request?, hm, hidle] at h
  simp only [request?, hm, hrunning, hnow, hall, Bool.not_true, Bool.false_eq_true,
    if_false, if_true,
    Option.some.injEq] at h
  rw [← h, register_disconnect, register_setRequester, Register.duty_modify, if_pos rfl,
    Register.duty_modify, if_pos rfl, hduty] at hduty'
  exact hkept hduty'

/-- A requester that gives up and stays connected has left early or has looked while the session was
paused. -/
theorem explains_happen (hpast : run? past start = some s) (hequipped : Equipped start past s)
    (hlists : ListsLive s'.register) (hleaving : Explained start past s)
    (hknows : KnowsAnnounced start past s number) (hexplains : Explains start past s number)
    (h : s.happen? now event = some s') : Explains start (past ++ [(now, event)]) s' number := by
  intro m' hm' hlive hretired
  have hduty' := duty_of_member hm'
  obtain ⟨hrunning, hkept⟩ := Bool.and_eq_true_iff.mp hlive
  rw [Bool.not_eq_true'] at hkept
  have hstatus : (duty m').fate.status = .running := Connection.status_of_isRunning hrunning
  obtain ⟨d, hduty, hfate, hwhy⟩ := retired_happen h hduty' hstatus hkept hretired
  obtain ⟨m, hm, rfl⟩ := member_of_duty hduty
  have hwasLive : m.isLive = true := by
    have hrunning' : m.connection.status = .running := (congrArg Fate.status hfate).trans hstatus
    have hkept' : m.connection.cancelled = false := (congrArg Fate.cancelled hfate).trans hkept
    simp [Member.isLive, Connection.isRunning, hrunning', hkept']
  rcases hwhy with hfinal | hparting | ⟨hchoosing, hpaused, coins, rfl⟩
  · have hstayed : event ≠ .dropAllPeers := by
      rintro rfl
      cases h
      have hlisted := hlists number (duty m') hduty' hstatus hkept
      cases hlisted
    exact (hexplains m hm hwasLive hfinal).imp (fun hleft => hleft.later _)
      fun hlooked => hlooked.later now hstayed
  · refine Or.inl ?_
    obtain ⟨coins, rfl⟩ := asked_of_final_ne h hduty hduty' hstatus fun heq => by
      cases hretired.symm.trans (heq.trans hparting)
    obtain ⟨hnow, hlacks⟩ := lacks_of_parting h hm hm' hlive hparting hretired
    refine happened_last hpast h ⟨coins, m, rfl, hm, hnow,
      hleaving.parting number _ hduty hparting, ?_⟩
    have htold := hequipped.told number (standing m.connection)
      (congrArg (Option.map fun m : Member => standing m.connection) hm)
    by_contra hall
    simp only [not_exists, not_and, not_not] at hall
    have hcomplete := (Bitfield.hasAll_iff htold.wellFormed).mpr fun index hindex =>
      hknows m hm index (htold.pieceCount_eq ▸ hindex) (hall index (htold.pieceCount_eq ▸ hindex))
    cases hlacks.symm.trans hcomplete
  · exact Or.inr ⟨past, now, coins, [], s, m, rfl, hpast, hpaused, hm, hchoosing,
      fun entry hentry => absurd hentry List.not_mem_nil⟩

theorem explained_run (hstart : Starts ownId t connectionOptions policy start)
    (hrun : run? past start = some s) : Explained start past s :=
  run_history (Q := Explained start) (explained_of_starts hstart) explained_happen hrun

/-! ### Coming first -/

theorem missing_of_isFinished (hstart : Starts ownId t connectionOptions policy start)
    (hrun : run? past start = some s) (hfinished : s.isFinished = true)
    (hmissing : s.owned.contains index = false) (hstep : s.happen? now event = some s') :
    s'.owned.contains index = false := by
  rw [Bool.eq_false_iff]
  intro howned
  have hfitsStart := (begins_of_starts hstart).1
  have hfits := fits_run hfitsStart hrun
  have hafter := run?_append_singleton hrun hstep
  have hlt : index < s.owned.pieceCount := by
    rw [hfits.pieceCount_eq, ← (gains_happen hstep).pieceCount_eq,
      ← ((gains_happen hstep).fits hfits).pieceCount_eq]
    exact Bitfield.lt_of_contains howned
  rcases (guarded_run hstart hafter).owned index howned with hfirst | hsought
  · cases hmissing.symm.trans (contains_run hfitsStart hrun hfirst)
  · unfold isFinished at hfinished
    rw [(constant_run hrun).2] at hfinished
    split at hfinished
    · next allowed hallowed =>
      have hwanted := hsought.allowed allowed hallowed
      have hindex : index ∈ List.range allowed.length := by
        by_contra houtside
        rw [List.mem_range, Nat.not_lt] at houtside
        rw [List.getD_eq_getElem?_getD, List.getElem?_eq_none houtside] at hwanted
        cases hwanted
      have hthere := List.all_eq_true.mp hfinished index hindex
      rw [hwanted, Bool.not_true, Bool.false_or, hmissing] at hthere
      cases hthere
    · cases hmissing.symm.trans ((Bitfield.hasAll_iff hfits.wellFormed).mp hfinished index hlt)

theorem not_leftEarly (hstart : Starts ownId t connectionOptions policy start)
    (hfirst : ∀ index < start.pieceCount, FirstAnnounced start past number index) :
    ¬ LeftEarly start past number := by
  rintro ⟨earlier, later, now, event, s, s', hpast, hrun, hstep, coins, m, _, _, _, hfinished, index,
    hindex, hunheard⟩
  have hcount : s.pieceCount = start.pieceCount :=
    congrArg (fun g => g.pieceCount.toNat) (constant_run hrun).1
  obtain ⟨before, _, _, _, r, r', hpast', hrun', hstep', hmissing, howned, hannounced⟩ :=
    hfirst index (hcount ▸ hindex)
  have hinit : earlier <+: past := hpast ▸ List.prefix_append _ _
  have hinit' : before <+: past := hpast' ▸ List.prefix_append _ _
  rcases List.prefix_or_prefix_of_prefix hinit hinit' with ⟨rest, rfl⟩ | ⟨rest, rfl⟩
  · have hrest := hrun'
    rw [run?_append, hrun, Option.bind_some] at hrest
    have hfits := fits_run (begins_of_starts hstart).1 hrun
    have hstill :=
      missing_of_isFinished hstart hrun' (isFinished_run hfits hrest hfinished) hmissing
      hstep'
    cases hstill.symm.trans howned
  · exact hunheard (Happened.later hannounced rest)

end Session

end TorrentCore
