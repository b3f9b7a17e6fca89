import TorrentCore.Proofs.Session.Register
import TorrentCore.Simulation.Scene

/-!
# How far a socket has come

A socket of a swarm is an attempt first, and then either a connection of a session or nothing more.
`Swarm.stage` is the place where it is now. What a step of the swarm does to the stage of a socket
and to the register of its session is said here once for every step that has to do with attempts;
that other sockets stay where they are is `Swarm.Keeps`.
-/

namespace TorrentCore

/-- How far a socket has come, as the swarm at its near end sees it. -/
inductive Stage where
  | absent
  | dialing (dialer : Option Nat)
  | exchanging (dialer : Option Nat) (exchange : Exchange) (link : Link)
  | taken (duty : Duty)
  /-- The attempt is over, and came to no connection of the session. -/
  | refused (link : Link)

namespace Stage

def link? : Stage → Option Link
  | .absent | .dialing _ => none
  | .exchanging _ _ l | .refused l => some l
  | .taken d => some d.link

def mapLink (f : Link → Link) : Stage → Stage
  | .absent => .absent
  | .dialing dialer => .dialing dialer
  | .exchanging dialer x l => .exchanging dialer x (f l)
  | .taken d => .taken { d with link := f d.link }
  | .refused l => .refused (f l)

end Stage

def Attempt.stage (a : Attempt) : Stage :=
  match a.phase with
  | .dialing => .dialing a.dialer
  | .exchanging x => .exchanging a.dialer x a.link
  | .over => .refused a.link

namespace Swarm

def register? (w : Swarm) (session : Nat) : Option Register :=
  (w.sessions.get? session).map Session.register

def attemptStage (w : Swarm) (number : Nat) : Stage :=
  match w.attempts.get? number with
  | some a => a.stage
  | none => .absent

def stage (w : Swarm) (session number : Nat) : Stage :=
  match (w.register? session).bind fun r => r.duty number with
  | some d => .taken d
  | none => w.attemptStage number

variable {w w' : Swarm} {now : Nanoseconds} {session number : Nat}

theorem session_of_register? {r : Register} (h : w.register? session = some r) :
    ∃ s, w.sessions.get? session = some s ∧ s.register = r := Option.map_eq_some_iff.mp h

theorem stage_of_duty {r : Register} {d : Duty} (hr : w.register? session = some r)
    (hduty : r.duty number = some d) : w.stage session number = .taken d := by
  rw [stage, hr, Option.bind_some, hduty]

theorem stage_of_fresh {r : Register} (hr : w.register? session = some r)
    (hduty : r.duty number = none) : w.stage session number = w.attemptStage number := by
  rw [stage, hr, Option.bind_some, hduty]

theorem stage_congr (hduty : ((w'.register? session).bind fun r => r.duty number)
      = (w.register? session).bind fun r => r.duty number)
    (hattempt : w'.attemptStage number = w.attemptStage number) :
    w'.stage session number = w.stage session number := by
  rw [stage, hduty, hattempt, stage]

theorem duty_of_stage {d : Duty} (h : w.stage session number = .taken d) :
    ∃ r, w.register? session = some r ∧ r.duty number = some d := by
  rw [stage] at h
  split at h
  · next d' hduty =>
    cases h
    exact Option.bind_eq_some_iff.mp hduty
  · rw [attemptStage] at h
    split at h
    · unfold Attempt.stage at h
      split at h <;> cases h
    · cases h

theorem attemptStage_of_stage {st : Stage} (h : w.stage session number = st)
    (hst : ∀ d, st ≠ .taken d) :
    w.attemptStage number = st ∧ ∀ r, w.register? session = some r → r.duty number = none := by
  rw [stage] at h
  split at h
  · next d _ => exact absurd h.symm (hst d)
  · next hnone =>
    refine ⟨h, fun r hr => ?_⟩
    rwa [hr, Option.bind_some] at hnone

theorem attempt_of_exchanging {dialer : Option Nat} {x : Exchange} {l : Link}
    (h : w.attemptStage number = .exchanging dialer x l) :
    ∃ a, w.attempts.get? number = some a ∧ a.phase = .exchanging x ∧ a.dialer = dialer ∧ a.link
      = l := by
  rw [attemptStage] at h
  split at h
  · next a ha =>
    unfold Attempt.stage at h
    split at h <;> cases h
    next hphase => exact ⟨a, ha, hphase, rfl, rfl⟩
  · cases h

theorem attempt_of_dialing {dialer : Option Nat} (h : w.attemptStage number = .dialing dialer) :
    ∃ a, w.attempts.get? number = some a ∧ a.phase = .dialing ∧ a.dialer = dialer := by
  rw [attemptStage] at h
  split at h
  · next a ha =>
    unfold Attempt.stage at h
    split at h <;> cases h
    next hphase => exact ⟨a, ha, hphase, rfl⟩
  · cases h

theorem isServed_eq {r : Register} {infoHash : Identifier}
    (hlisted : w.torrents.get? infoHash = some session) (hr : w.register? session = some r) :
    w.isServed infoHash = !r.paused := by
  obtain ⟨s, hs, rfl⟩ := session_of_register? hr
  rw [isServed, session?, hlisted, Option.bind_some, hs]
  rfl

/-! ### What stays -/

/-- The torrents that are listed stay, and so does every attempt but one. -/
structure Keeps (number : Nat) (w w' : Swarm) : Prop where
  peerId_eq : w'.peerId = w.peerId
  torrents_eq : w'.torrents = w.torrents
  attempts_eq : ∀ n, n ≠ number → w'.attempts.get? n = w.attempts.get? n

theorem Keeps.trans {w'' : Swarm} (h : w.Keeps number w') (h' : w'.Keeps number w'') :
    w.Keeps number w'' :=
  ⟨h'.peerId_eq.trans h.peerId_eq, h'.torrents_eq.trans h.torrents_eq, fun n hn =>
    (h'.attempts_eq n hn).trans (h.attempts_eq n hn)⟩

theorem Keeps.attemptStage_eq {n : Nat} (h : w.Keeps number w') (hn : n ≠ number) :
    w'.attemptStage n = w.attemptStage n := by
  rw [attemptStage, h.attempts_eq n hn, attemptStage]

theorem keeps_modifyAttempt (w : Swarm) (number : Nat) (f : Attempt → Attempt) :
    w.Keeps number (w.modifyAttempt number f) :=
  ⟨rfl, rfl, fun n hn => (Table.get?_modify w.attempts number n f).trans (if_neg hn)⟩

theorem keeps_releaseSlot (w : Swarm) (number : Nat) (a : Attempt) :
    w.Keeps number (w.releaseSlot number a) := by
  unfold releaseSlot
  split
  · exact ⟨rfl, rfl, (keeps_modifyAttempt w number _).attempts_eq⟩
  · exact ⟨rfl, rfl, fun _ _ => rfl⟩

theorem keeps_doneConnecting (w : Swarm) (number : Nat) (a : Attempt) :
    w.Keeps number (w.doneConnecting a) := by
  unfold doneConnecting
  split <;> exact ⟨rfl, rfl, fun _ _ => rfl⟩

theorem keeps_abandon (w : Swarm) (number : Nat) (a : Attempt) :
    w.Keeps number (w.abandon number a) :=
  ((keeps_releaseSlot w number a).trans (keeps_modifyAttempt _ number _)).trans
    (keeps_doneConnecting _ number a)

theorem register?_doneConnecting (w : Swarm) (a : Attempt) (session : Nat) :
    (w.doneConnecting a).register? session = w.register? session := by
  unfold doneConnecting
  split
  · next dialer _ =>
    show ((w.sessions.modify dialer _).get? session).map Session.register = _
    rw [Table.get?_modify]
    split
    · next heq =>
      rw [heq, Option.map_map]
      rfl
    · rfl
  · rfl

theorem register?_releaseSlot (w : Swarm) (number : Nat) (a : Attempt) (session : Nat) :
    (w.releaseSlot number a).register? session = w.register? session := by
  unfold releaseSlot
  split <;> rfl

theorem register?_abandon (w : Swarm) (number : Nat) (a : Attempt) (session : Nat) :
    (w.abandon number a).register? session = w.register? session :=
  (register?_doneConnecting _ a session).trans (register?_releaseSlot w number a session)

/-! ### Attempts -/

theorem attempts_doneConnecting (w : Swarm) (a : Attempt) :
    (w.doneConnecting a).attempts = w.attempts := by
  unfold doneConnecting
  split <;> rfl

theorem get?_modifyAttempt {a : Attempt} (ha : w.attempts.get? number = some a)
    (f : Attempt → Attempt) : (w.modifyAttempt number f).attempts.get? number = some (f a) := by
  rw [modifyAttempt, Table.get?_modify, if_pos rfl, ha, Option.map_some]

theorem get?_releaseSlot {a : Attempt} (ha : w.attempts.get? number = some a) (a' : Attempt) :
    ∃ holds, (w.releaseSlot number a').attempts.get? number
      = some { a with holdsSlot := holds } := by
  unfold releaseSlot
  split
  · exact ⟨false, get?_modifyAttempt ha _⟩
  · exact ⟨a.holdsSlot, ha⟩

theorem attemptStage_abandon {a : Attempt} (ha : w.attempts.get? number = some a) (a' : Attempt) :
    (w.abandon number a').attemptStage number = .refused a.link.hangUp := by
  obtain ⟨holds, hreleased⟩ := get?_releaseSlot ha a'
  rw [attemptStage, abandon, attempts_doneConnecting, get?_modifyAttempt hreleased]
  rfl

theorem exchange?_eq {dialer : Option Nat} {x : Exchange} {l : Link}
    (hstage : w.attemptStage number = .exchanging dialer x l)
    (h : w.exchange? now number = some w') :
    ∃ x' l' a, x.step? w.isServed now l = some (x', l')
      ∧ w.attempts.get? number = some a ∧ a.dialer = dialer
      ∧ let b : Attempt := { a with phase := .exchanging x', link := l' }
        let v := w.modifyAttempt number fun _ => b
        w' = match x'.result? with
          | none => v
          | some (.error _) => v.abandon number b
          | some (.ok h) => v.promote now number b x' h := by
  obtain ⟨a, ha, hphase, hdialer, hlink⟩ := attempt_of_exchanging hstage
  simp only [exchange?, ha, hphase, hlink] at h
  split at h
  · cases h
  next x' l' hstep =>
  cases h
  exact ⟨x', l', a, hstep, ha, hdialer, rfl⟩

theorem exchange?_undecided {dialer : Option Nat} {x x' : Exchange} {l l' : Link}
    (hstage : w.attemptStage number = .exchanging dialer x l)
    (hstep : x.step? w.isServed now l = some (x', l')) (hresult : x'.result? = none)
    (h : w.exchange? now number = some w') :
    w.Keeps number w' ∧ (∀ session, w'.register? session = w.register? session)
      ∧ w'.attemptStage number = .exchanging dialer x' l' := by
  obtain ⟨x'', l'', a, hstep', ha, hdialer, hw'⟩ := exchange?_eq hstage h
  cases hstep.symm.trans hstep'
  rw [hresult] at hw'
  subst hw'
  refine ⟨keeps_modifyAttempt w number _, fun _ => rfl, ?_⟩
  rw [attemptStage, get?_modifyAttempt ha, ← hdialer]
  rfl

/-- The session that is given a socket: the one that dialed, or the one that is listed. -/
structure Takes (w : Swarm) (session : Nat) (dialer : Option Nat) (h : Handshake) : Prop where
  eq_or_listed : dialer = some session
    ∨ (dialer = none ∧ w.torrents.get? h.infoHash = some session)
  unpaused : ∀ r, w.register? session = some r → r.paused = false

theorem taker?_eq {a : Attempt} {h : Handshake} {s : Session}
    (htakes : w.Takes session a.dialer h) (hs : w.sessions.get? session = some s) :
    w.taker? a h = some (session, s) := by
  have hunpaused : s.paused = false := htakes.unpaused s.register (congrArg (Option.map _) hs)
  unfold taker?
  rcases htakes.eq_or_listed with hdialer | ⟨hdialer, hlisted⟩
  · rw [hdialer]
    simp only [hs, hunpaused, Bool.false_eq_true, if_false]
  · rw [hdialer]
    simp only [hlisted, hs, Option.map_some]

/-- Once the handshakes are exchanged the session takes the socket, unless the peer is the swarm
itself or is listed already. -/
theorem exchange?_decided {dialer : Option Nat} {x x' : Exchange} {l l' : Link} {hs : Handshake}
    {r : Register} (hstage : w.attemptStage number = .exchanging dialer x l)
    (hstep : x.step? w.isServed now l = some (x', l')) (hresult : x'.result? = some (.ok hs))
    (htakes : w.Takes session dialer hs) (hr : w.register? session = some r)
    (h : w.exchange? now number = some w') :
    w.Keeps number w'
      ∧ (((hs.peerId = r.ownId ∨ r.peers.get? hs.peerId ≠ none) ∧ w'.register? session = some r
          ∧ w'.attemptStage number = .refused l'.hangUp)
        ∨ (r.peers.get? hs.peerId = none ∧ w'.register? session
          = some (r.enter number ⟨⟨hs.peerId, .running, r.cancelled⟩, l', .greeting, false⟩))) := by
  obtain ⟨x'', l'', a, hstep', ha, hdialer, hw'⟩ := exchange?_eq hstage h
  cases hstep.symm.trans hstep'
  rw [hresult] at hw'
  simp only at hw'
  generalize hb : ({ a with phase := .exchanging x', link := l' } : Attempt) = b at hw'
  have hlink : b.link = l' := hb ▸ rfl
  have hbdialer : b.dialer = dialer := by rw [← hb, ← hdialer]
  have hkeeps := keeps_modifyAttempt w number fun _ => b
  generalize hv : (w.modifyAttempt number fun _ => b) = v at hw' hkeeps
  have hvb : v.attempts.get? number = some b := by
    rw [← hv]
    exact get?_modifyAttempt ha _
  have hvr : v.register? session = some r := by
    rw [← hv]
    exact hr
  obtain ⟨s, hs', rfl⟩ := session_of_register? hvr
  have htaker : v.taker? b hs = some (session, s) := by
    refine taker?_eq ⟨?_, fun r' hr' => htakes.unpaused r' ?_⟩ hs'
    · rw [hbdialer, hkeeps.torrents_eq]
      exact htakes.eq_or_listed
    · rw [← hr', ← hv]
      rfl
  rw [promote, htaker, hlink] at hw'
  simp only at hw'
  split at hw'
  · next e hrefused =>
    subst hw'
    refine ⟨hkeeps.trans (keeps_abandon v number b), Or.inl ⟨?_, ?_, ?_⟩⟩
    · unfold Session.addPeer at hrefused
      split at hrefused
      · next hself => exact Or.inl hself
      split at hrefused
      · next hlisted => exact Or.inr (Option.isSome_iff_ne_none.mp hlisted)
      · cases hrefused
    · rw [register?_abandon, hvr]
    · rw [attemptStage_abandon hvb, hlink]
  · next s' hadd =>
    subst hw'
    obtain ⟨_, hfirst, hregister⟩ := Session.register_addPeer hadd
    refine ⟨?_, Or.inr ⟨hfirst, ?_⟩⟩
    · have hover := (keeps_releaseSlot v number b).trans
        (keeps_modifyAttempt _ number fun a => { a with phase := .over })
      refine (hkeeps.trans ?_).trans (keeps_doneConnecting _ number b)
      exact ⟨hover.peerId_eq, hover.torrents_eq, hover.attempts_eq⟩
    · rw [register?_doneConnecting, register?, Table.get?_insert_self, Option.map_some,
        hregister]
      rfl

/-! ### New sockets -/

theorem answerDial?_spec {l : Link} {r : Register}
    (hstage : w.attemptStage number = .dialing (some session)) (hr : w.register? session = some r)
    (h : w.answerDial? now number (some l) = some w') :
    w.Keeps number w' ∧ (∀ session, w'.register? session = w.register? session)
      ∧ w'.attemptStage number = .exchanging (some session) (.outbound r.infoHash w.peerId
          w.options.handshakeTimeout w.options.connection.maxMessage now) l := by
  obtain ⟨a, ha, hphase, hdialer⟩ := attempt_of_dialing hstage
  obtain ⟨s, hs, rfl⟩ := session_of_register? hr
  simp only [answerDial?, ha, hphase, hdialer, Option.bind_some, hs] at h
  cases h
  refine ⟨keeps_modifyAttempt w number _, fun _ => rfl, ?_⟩
  rw [attemptStage, get?_modifyAttempt ha, ← hdialer]
  rfl

theorem accept_spec {l : Link} {address : Address} (h : w.accept now l address = some w') :
    w.Keeps w.nextNumber w' ∧ (∀ session, w'.register? session = w.register? session)
      ∧ w'.attemptStage w.nextNumber = .exchanging none (.inbound w.peerId
          w.options.handshakeTimeout w.options.connection.maxMessage now) l := by
  unfold accept claimSlot? at h
  split at h <;> cases h
  refine ⟨⟨rfl, rfl, fun n hn => ?_⟩, fun _ => rfl, ?_⟩
  · exact Table.get?_insert_of_ne hn
  · rw [attemptStage, Table.get?_insert_self]
    rfl

/-! ### The network -/

theorem register?_modifyLink (w : Swarm) (number session : Nat) (f : Link → Link) :
    (w.modifyLink number f).register? session
      = (w.register? session).map fun r =>
          r.modify number fun d => { d with link := f d.link } := by
  show ((Table.mk (w.sessions.entries.map fun e => (e.1, { e.2 with
    members := e.2.members.modify number fun m => { m with link := f m.link } }))).get?
      session).map Session.register = _
  have hfound := Table.find?_map_values w.sessions.entries session fun s : Session => { s with
    members := s.members.modify number fun m => { m with link := f m.link } }
  refine (congrArg (Option.map Session.register) hfound).trans ?_
  rw [register?, Option.map_map, Option.map_map]
  congr 1
  funext s
  exact Session.register_modify s number fun _ => rfl

theorem attemptStage_modifyLink (w : Swarm) (number n : Nat) (f : Link → Link) :
    (w.modifyLink number f).attemptStage n
      = if n = number then (w.attemptStage n).mapLink f else w.attemptStage n := by
  have hget := Table.get?_modify w.attempts number n fun a => { a with link := f a.link }
  show (match (w.attempts.modify number _).get? n with
    | some a => Attempt.stage a
    | none => .absent) = _
  rw [hget, attemptStage]
  by_cases heq : n = number
  · rw [if_pos heq, if_pos heq, heq]
    cases w.attempts.get? number with
    | none => rfl
    | some a =>
        simp only [Option.map_some]
        unfold Attempt.stage
        cases a.phase <;> rfl
  · rw [if_neg heq, if_neg heq]

theorem stage_modifyLink (w : Swarm) (session number n : Nat) (f : Link → Link) :
    (w.modifyLink number f).stage session n
      = if n = number then (w.stage session n).mapLink f else w.stage session n := by
  rw [stage, register?_modifyLink, attemptStage_modifyLink, stage]
  cases w.register? session with
  | none => rfl
  | some r =>
      rw [Option.map_some, Option.bind_some, Option.bind_some, Register.duty_modify]
      by_cases heq : n = number
      · rw [if_pos heq, if_pos heq, if_pos heq, heq]
        cases r.duty number <;> rfl
      · rw [if_neg heq, if_neg heq, if_neg heq]

end Swarm

end TorrentCore
