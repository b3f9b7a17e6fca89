import TorrentCore.Proofs.Session.Owned
import TorrentCore.Proofs.Session.Shift

/-!
# Pausing and asking

A requester that looks for something to do while its session is paused gives up for good. The next
pass over all torrents drops the connections of a paused session, and then this does no harm. But a
session that is resumed before that pass keeps the connection, and its peer is never asked again.
This is the only way to it: as long as pieces are missing, a live connection whose requester has
given up is one that looked while the session was paused and was not dropped since.
-/

namespace TorrentCore

def Member.isLive (m : Member) : Bool := m.connection.isRunning && !m.connection.cancelled

namespace Session

/-- Every peer with a live connection may still be asked for pieces. -/
def KeepsAsking (s : Session) : Prop :=
  ∀ entry ∈ s.peers.entries, ∀ m, s.members.get? entry.2 = some m → m.isLive = true →
    m.requester ≠ .retired

/-- The requester of a connection looked for something to do while the session was paused, and the
connections were not dropped since then. -/
def LookedWhilePaused (start : Session) (events : List (Nanoseconds × Event)) (number : Nat) :
    Prop :=
  ∃ before now coins after s m, events = before ++ (now, .own (.request number coins)) :: after
    ∧ run? before start = some s ∧ s.paused = true ∧ s.members.get? number = some m
    ∧ m.requester = .choosing ∧ ∀ entry ∈ after, entry.2 ≠ .dropAllPeers

theorem LookedWhilePaused.later {start : Session} {past : List (Nanoseconds × Event)} {number : Nat}
    (h : LookedWhilePaused start past number) (now : Nanoseconds) {event : Event}
    (hkept : event ≠ .dropAllPeers) : LookedWhilePaused start (past ++ [(now, event)]) number := by
  obtain ⟨before, now₀, coins, after, s, m, rfl, hrun, hpaused, hm, hchoosing, hafter⟩ := h
  refine ⟨before, now₀, coins, after ++ [(now, event)], s, m, ?_, hrun, hpaused, hm, hchoosing, ?_⟩
  · rw [List.append_assoc, List.cons_append]
  · intro entry hentry
    rcases List.mem_append.mp hentry with hold | hnew
    · exact hafter entry hold
    · rw [List.mem_singleton.mp hnew]
      exact hkept

structure Explained (start : Session) (past : List (Nanoseconds × Event)) (s : Session) : Prop where
  fits : s.Fits
  parting : ∀ number d, s.register.duty number = some d → d.requester.final = .parting →
    s.isFinished = true
  retired : ∀ peerId number d, (peerId, number) ∈ s.peers.entries →
    s.register.duty number = some d → d.fate.status = .running → d.fate.cancelled = false →
    d.requester.final = .retired → s.isFinished = true ∨ LookedWhilePaused start past number

theorem parting_happen {now : Nanoseconds} {s s' : Session} {event : Event} {number : Nat}
    {d' : Duty}
    (h : s.happen? now event = some s') (hduty' : s'.register.duty number = some d')
    (hparting : d'.requester.final = .parting) :
    s.isFinished = true
      ∨ ∃ d, s.register.duty number = some d ∧ d.requester.final = .parting := by
  have hshift := shift_of_happen h
  cases hduty : s.register.duty number with
  | none =>
      rcases fresh_of_shift hshift hduty with hnone | ⟨link, address, h, buffer, _, _, _, hjoined⟩
      · rw [hnone] at hduty'
        cases hduty'
      · cases hjoined.symm.trans hduty'
        cases hparting
  | some d =>
      obtain ⟨d'', hd'', hchange⟩ := change_of_shift hshift hduty
      cases hd''.symm.trans hduty'
      cases hchange with
      | asked coins r refused hevent hactive hretired hleaves =>
          have hfinal : r.final = .parting := by
            cases refused <;> exact hparting
          exact (hleaves hfinal).elim (fun hd => Or.inr ⟨d, rfl, hd⟩) Or.inl
      | closedOut => cases hparting
      | _ => exact Or.inr ⟨_, rfl, hparting⟩

/-- A live requester gives up when it has taken its leave, or looks while the session is paused. -/
theorem retired_happen {now : Nanoseconds} {s s' : Session} {event : Event} {number : Nat}
    {d' : Duty} (h : s.happen? now event = some s') (hduty' : s'.register.duty number = some d')
    (hrunning : d'.fate.status = .running) (hlive : d'.fate.cancelled = false)
    (hretired : d'.requester.final = .retired) :
    ∃ d, s.register.duty number = some d ∧ d.fate = d'.fate ∧ (d.requester.final = .retired
      ∨ d.requester.final = .parting
      ∨ (d.requester = .choosing ∧ s.paused = true ∧ ∃ coins, event = .own (.request number coins))) := by
  have hshift := shift_of_happen h
  cases hduty : s.register.duty number with
  | none =>
      rcases fresh_of_shift hshift hduty with hnone | ⟨link, address, h, buffer, _, _, _, hjoined⟩
      · rw [hnone] at hduty'
        cases hduty'
      · cases hjoined.symm.trans hduty'
        cases hretired
  | some d =>
      refine ⟨d, rfl, ?_⟩
      obtain ⟨d'', hd'', hchange⟩ := change_of_shift hshift hduty
      cases hd''.symm.trans hduty'
      cases hchange with
      | same | onward | relinked => exact ⟨rfl, Or.inl hretired⟩
      | ended => cases hrunning
      | told => cases hlive
      | closedOut hended =>
          rw [Duty.hasEnded, show d.fate.status = _ from hrunning] at hended
          cases hended
      | asked coins r refused hevent hactive hgives hparting =>
          cases refused with
          | true => cases hlive
          | false =>
              refine ⟨rfl, ?_⟩
              rcases hgives hretired with hrefused | hfinal | hfinal | ⟨hchoosing, hpaused⟩
              · cases hrefused
              · exact Or.inl hfinal
              · exact Or.inr (Or.inl hfinal)
              · exact Or.inr (Or.inr ⟨hchoosing, hpaused, coins, hevent⟩)

theorem explained_happen {start : Session} {past : List (Nanoseconds × Event)} {now : Nanoseconds}
    {s s' : Session} {event : Event} (hpast : run? past start = some s)
    (hexplained : Explained start past s) (h : s.happen? now event = some s') :
    Explained start (past ++ [(now, event)]) s' := by
  have hgains := gains_happen h
  have hstays : s.isFinished = true → s'.isFinished = true := hgains.isFinished hexplained.fits
  refine ⟨hgains.fits hexplained.fits, ?_, ?_⟩
  · intro number d' hduty' hparting
    rcases parting_happen h hduty' hparting with hfinished | ⟨d, hduty, hd⟩
    · exact hstays hfinished
    · exact hstays (hexplained.parting number d hduty hd)
  · intro peerId number d' hentry' hduty' hrunning hlive hretired
    obtain ⟨d, hduty, hfate, hwhy⟩ := retired_happen h hduty' hrunning hlive hretired
    have hentry : (peerId, number) ∈ s.peers.entries := by
      rcases peers_of_shift (shift_of_happen h) hentry' with hold | ⟨hfresh, _⟩
      · exact hold
      · rw [hfresh] at hduty
        cases hduty
    have hkept : event ≠ .dropAllPeers := by
      rintro rfl
      cases h
      cases hentry'
    rcases hwhy with hfinal | hfinal | ⟨hchoosing, hpaused, coins, rfl⟩
    · have hbefore := hexplained.retired peerId number d hentry hduty (hfate ▸ hrunning)
        (hfate ▸ hlive) hfinal
      exact hbefore.imp hstays fun hlooked => hlooked.later now hkept
    · exact Or.inl (hstays (hexplained.parting number d hduty hfinal))
    · obtain ⟨m, hm, hd⟩ := member_of_duty hduty
      refine Or.inr ⟨past, now, coins, [], s, m, rfl, hpast, hpaused, hm, ?_, ?_⟩
      · exact (congrArg Duty.requester hd).trans hchoosing
      · exact fun entry hentry => absurd hentry List.not_mem_nil

theorem explained_of_starts {ownId : Identifier} {t : TorrentSource}
    {connectionOptions : ConnectionOptions} {policy : ReservationPolicy} {start : Session}
    (h : Starts ownId t connectionOptions policy start) : Explained start [] start := by
  obtain ⟨hfits, _, hregister⟩ := begins_of_starts h
  refine ⟨hfits, ?_, ?_⟩
  · intro number d hduty
    rw [hregister] at hduty
    cases hduty
  · intro peerId number d _ hduty
    rw [hregister] at hduty
    cases hduty

/-! ### Looking while paused is giving up -/

theorem retired_of_look {now : Nanoseconds} {s s' : Session} {number : Nat} {coins : List Bool}
    {m : Member} (h : s.happen? now (.own (.request number coins)) = some s')
    (hm : s.members.get? number = some m) (hchoosing : m.requester = .choosing)
    (hpaused : s.paused = true) (hmissing : s.isFinished = false) :
    ∃ d, s'.register.duty number = some d ∧ d.requester = .retired := by
  rw [happen?, act?, request?, hm] at h
  simp only at h
  split at h
  · cases h
  rw [hchoosing] at h
  simp only [choose, hmissing, hpaused, Bool.false_eq_true, if_false, if_true] at h
  cases h
  rw [register_setRequester, Register.duty_modify, if_pos rfl, duty_of_member hm]
  exact ⟨_, rfl, rfl⟩

theorem retired_stays {now : Nanoseconds} {s s' : Session} {event : Event} {number : Nat}
    (h : s.happen? now event = some s')
    (hretired : ∃ d, s.register.duty number = some d ∧ d.requester = .retired) :
    ∃ d, s'.register.duty number = some d ∧ d.requester = .retired := by
  obtain ⟨d, hduty, hd⟩ := hretired
  obtain ⟨d', hduty', hchange⟩ := change_of_shift (shift_of_happen h) hduty
  refine ⟨d', hduty', ?_⟩
  cases hchange with
  | asked coins r refused hevent hactive => exact absurd hd hactive
  | closedOut => rfl
  | _ => exact hd

theorem retired_of_lookedWhilePaused {start s : Session} {events : List (Nanoseconds × Event)}
    {number : Nat} {m : Member} (hfits : start.Fits) (hrun : run? events start = some s)
    (hmissing : s.isFinished = false) (hm : s.members.get? number = some m)
    (h : LookedWhilePaused start events number) : m.requester = .retired := by
  obtain ⟨before, now, coins, after, mid, m₀, rfl, hbefore, hpaused, hm₀, hchoosing, _⟩ := h
  rw [run?_append, hbefore, Option.bind_some] at hrun
  obtain ⟨looked, hlook, hafter⟩ := Option.bind_eq_some_iff.mp hrun
  have hfitsMid : mid.Fits := run_invariant (P := Fits) (fun hs hstep =>
    (gains_happen hstep).fits hs) hfits hbefore
  have hmissingMid : mid.isFinished = false := by
    rw [Bool.eq_false_iff]
    intro hfinished
    have hlater := run_invariant (P := fun r => r.Fits ∧ r.isFinished = true)
      (fun hr hstep => ⟨(gains_happen hstep).fits hr.1, (gains_happen hstep).isFinished hr.1 hr.2⟩)
      ⟨hfitsMid, hfinished⟩ hrun
    rw [hmissing] at hlater
    cases hlater.2
  have hretired := run_invariant
    (P := fun r => ∃ d, r.register.duty number = some d ∧ d.requester = .retired)
    (fun hr hstep => retired_stays hstep hr)
    (retired_of_look hlook hm₀ hchoosing hpaused hmissingMid) hafter
  obtain ⟨d, hduty, hd⟩ := hretired
  rw [duty_of_member hm] at hduty
  cases hduty
  exact hd

/-- As long as pieces are missing, the requester of a current and live connection has given up if
and only if it looked for something to do while the session was paused, and no pass that found the
session paused came after that. -/
theorem retired_iff_lookedWhilePaused {ownId : Identifier} {t : TorrentSource}
    {connectionOptions : ConnectionOptions} {policy : ReservationPolicy} {start s : Session}
    {events : List (Nanoseconds × Event)} {peerId : Identifier} {number : Nat} {m : Member}
    (hstart : Starts ownId t connectionOptions policy start) (hrun : run? events start = some s)
    (hmissing : s.isFinished = false) (hpeer : (peerId, number) ∈ s.peers.entries)
    (hm : s.members.get? number = some m) (hlive : m.isLive = true) :
    m.requester = .retired ↔ LookedWhilePaused start events number := by
  have hexplained := run_history (Q := Explained start) (explained_of_starts hstart)
    explained_happen hrun
  rw [Member.isLive, Bool.and_eq_true, Bool.not_eq_true'] at hlive
  constructor
  · intro hretired
    have hfinal : m.requester.final = .retired := by
      rw [hretired]
      rfl
    rcases hexplained.retired peerId number (duty m) hpeer (duty_of_member hm)
      (Connection.status_of_isRunning hlive.1) hlive.2 hfinal with hfinished | hlooked
    · rw [hmissing] at hfinished
      cases hfinished
    · exact hlooked
  · exact retired_of_lookedWhilePaused (begins_of_starts hstart).1 hrun hmissing hm

/-- A peer with no pieces is waited for. The session is paused for longer than the wait and resumed
before anybody notices. -/
def pauseAndResume : List (Nanoseconds × Event) :=
  let request : Event := .own (.request 0 [])
  let receive : Event := .own (.receive 0)
  ([joins 0 [.bitfield [0x00]], request, request, request, request, receive, receive, receive,
    request, request, request, .pause] : List Event).map (fun event => (0, event))
  ++ ([request, request, .resume] : List Event).map fun event => (recheckInterval, event)

instance (s : Session) : Decidable s.KeepsAsking :=
  decidable_of_iff (∀ entry ∈ s.peers.entries, ∀ m ∈ s.members.get? entry.2, m.isLive = true →
    m.requester ≠ .retired) Iff.rfl

theorem keepsAsking_fails : ∃ start s, Starts .zero twoPieces {} {} start
    ∧ run? pauseAndResume start = some s ∧ s.paused = false ∧ s.isFinished = false
    ∧ ¬ s.KeepsAsking := by
  have hdone : (after? .zero twoPieces {} {} pauseAndResume).any (fun s =>
      decide (s.paused = false ∧ s.isFinished = false ∧ ¬ s.KeepsAsking)) = true := by
    decide +kernel
  obtain ⟨start, s, hstart, hrun, htest⟩ := exists_run_of_after? hdone
  exact ⟨start, s, hstart, hrun, of_decide_eq_true htest⟩

/-- The peer that is not asked any more has looked while the session was paused. -/
theorem retired_iff_lookedWhilePaused_pauseAndResume : ∃ start s m,
    Starts .zero twoPieces {} {} start ∧ run? pauseAndResume start = some s
    ∧ s.isFinished = false ∧ (m.connection.peerId, 0) ∈ s.peers.entries
    ∧ s.members.get? 0 = some m ∧ m.isLive = true ∧ m.requester = .retired
    ∧ LookedWhilePaused start pauseAndResume 0 := by
  have hdone : (after? .zero twoPieces {} {} pauseAndResume).any (fun s =>
      decide (s.isFinished = false) && (s.members.get? 0).any fun m =>
        decide ((m.connection.peerId, 0) ∈ s.peers.entries ∧ m.isLive = true
          ∧ m.requester = .retired)) = true := by
    decide +kernel
  obtain ⟨start, s, hstart, hrun, htest⟩ := exists_run_of_after? hdone
  obtain ⟨hmissing, htest⟩ := Bool.and_eq_true_iff.mp htest
  obtain ⟨m, hm, htest⟩ := (Option.any_eq_true _ _).mp htest
  obtain ⟨hpeer, hlive, hretired⟩ := of_decide_eq_true htest
  exact ⟨start, s, m, hstart, hrun, of_decide_eq_true hmissing, hpeer, hm, hlive, hretired,
    (retired_iff_lookedWhilePaused hstart hrun (of_decide_eq_true hmissing) hpeer hm hlive).mp
      hretired⟩

end Session

end TorrentCore
