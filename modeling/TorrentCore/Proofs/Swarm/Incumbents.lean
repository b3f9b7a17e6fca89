import TorrentCore.Proofs.Session.Owned
import TorrentCore.Proofs.Session.Roster
import TorrentCore.Proofs.Swarm.Slots

/-!
# The first connection of a peer

Links come to the sessions of a swarm from its attempts, inbound and outbound, and a connection
keeps the number of its attempt. An attempt that gives its link away is over with that, so no
session is given two connections under one number. With this every session of a swarm goes through a
history of its own, in which the first connection of a peer stays listed until it leaves.
-/

namespace TorrentCore

/-- A session goes on: not at all, as far as the register shows, or by an event. A connection that
joins it has the number of an attempt that is over then. -/
inductive Session.Next (spent : Nat → Prop) (s : Session) : Register → Prop
  | same : s.Next spent s.register
  | event (now : Nanoseconds) (event : Session.Event) (s' : Session)
      (hstep : s.happen? now event = some s')
      (hspent : ∀ k link address h buffer, event = .connect k link address h buffer → spent k) :
      s.Next spent s'.register

/-- The register is one of ours, and all its connections come from attempts that are over. -/
structure Register.Enrolled (peerId : Identifier) (spent : Nat → Prop) (r : Register) : Prop where
  ownId : r.ownId = peerId
  roster : r.Roster
  spent : ∀ k d, r.duty k = some d → spent k

namespace Session

variable {peerId : Identifier} {s : Session} {r : Register} {spent spent' : Nat → Prop}

theorem enrolled_next (h : s.register.Enrolled peerId spent) (hspent : ∀ k, spent k → spent' k)
    (hnext : s.Next spent' r) : r.Enrolled peerId spent' := by
  obtain ⟨hown, hroster, hmembers⟩ := h
  cases hnext with
  | same => exact ⟨hown, hroster, fun k d hduty => hspent k (hmembers k d hduty)⟩
  | event now event s' hstep hjoined =>
      have hshift := shift_of_happen hstep
      refine ⟨(constant_of_shift hshift).2.1.trans hown, roster_happen hroster hstep, ?_⟩
      intro k d hduty
      cases hbefore : s.register.duty k with
      | some d₀ => exact hspent k (hmembers k d₀ hbefore)
      | none =>
          rcases fresh_of_shift hshift hbefore with
            hnone | ⟨link, address, handshake, buffer, hevent, _⟩
          · cases hnone.symm.trans hduty
          · exact hjoined k link address handshake buffer hevent

theorem enrolled_of_make {t : TorrentSource} {connectionOptions : ConnectionOptions}
    {policy : ReservationPolicy} (hmake : make peerId t connectionOptions policy = .ok s) :
    s.register.Enrolled peerId spent := by
  obtain ⟨-, -, hregister⟩ := begins_of_make hmake
  rw [hregister]
  exact ⟨rfl, ⟨fun _ _ h => (nomatch h), fun _ _ h => (nomatch h)⟩, fun _ _ h => (nomatch h)⟩

theorem retains_next {id : Identifier} {k : Nat} (hroster : s.register.Roster)
    (h : s.register.Retains id k) (hnext : s.Next spent r) : r.Retains id k := by
  cases hnext with
  | same => exact h
  | event now event s' hstep hspent => exact retains_happen hroster h hstep

end Session

namespace Books

variable {peerId : Identifier} {options : SwarmOptions} {b b' : Books} {k n : Nat} {a : Attempt}
  {s s' : Session}

structure RosterKept (peerId : Identifier) (options : SwarmOptions) (b : Books) : Prop where
  peerId_eq : b.peerId = peerId
  slots : SlotsKept options b
  numbered : b.Numbered
  enrolled : ∀ n s, b.session n = some s → s.register.Enrolled peerId b.IsOver

theorem RosterKept.get?_member (h : RosterKept peerId options b) (hs : b.session n = some s)
    (ha : b.attempt k = some a) (hopen : a.isOpen = true) : s.members.get? k = none := by
  by_contra hsome
  obtain ⟨m, hm⟩ := Option.ne_none_iff_exists'.mp hsome
  obtain ⟨a', ha', hover⟩ := (h.enrolled n s hs).spent k _ (Session.duty_of_member hm)
  cases ha.symm.trans ha'
  rw [(h.slots.holding k a ha).isOpen_eq, hover] at hopen
  cases hopen

theorem next_putSession {spent : Nat → Prop} {n₀ : Nat} {s₀ s₁ : Session}
    (hs : b.session n = some s)
    (hs₀ : b.session n₀ = some s₀) (hnext : s₀.Next spent s₁.register) :
    ∃ s', (b.putSession n₀ s₁).session n = some s' ∧ s.Next spent s'.register := by
  rw [session_putSession]
  split
  · next heq =>
    subst heq
    cases hs.symm.trans hs₀
    exact ⟨s₁, rfl, hnext⟩
  · exact ⟨s, hs, .same⟩

theorem next_course (h : RosterKept peerId options b) (ha : b.attempt k = some a)
    (hopen : a.isOpen = true) (hcourse : b.Course k a b') (hs : b.session n = some s) :
    ∃ s', b'.session n = some s' ∧ s.Next b'.IsOver s'.register := by
  -- Striking out an address does not show in the register.
  have hsettled : ∀ {b₀ : Books} {spent : Nat → Prop} {link : Link},
      (∃ s', b₀.session n = some s' ∧ s.Next spent s'.register) →
      ∃ s', (b₀.close k a link).session n = some s' ∧ s.Next spent s'.register := by
    rintro b₀ spent link ⟨s', hs', hnext⟩
    have hfinished : (b₀.finish k a link).session n = some s' := hs'
    obtain ⟨connecting, hafter⟩ := session_settle hfinished a
    exact ⟨_, hafter, hnext⟩
  cases hcourse with
  | goesOn a' haddress hdialer hholds hpending => exact ⟨s, hs, .same⟩
  | abandoned link => exact hsettled ⟨s, hs, .same⟩
  | promoted now taker s₀ s₁ link hand buffer hs₀ hadd =>
      have hnew := h.get?_member hs₀ ha hopen
      have hover : ((b.putSession taker s₁).close k a link).IsOver k :=
        ⟨_, (attempt_close (b.putSession taker s₁) k k a link).trans (if_pos rfl), rfl⟩
      refine hsettled (next_putSession hs hs₀ ?_)
      refine .event now _ s₁ (Session.happen?_connect hnew hadd) ?_
      rintro k' _ _ _ _ heq
      cases heq
      exact hover

theorem next_of_stride (h : RosterKept peerId options b) (hstride : b.Stride b')
    (hs : b.session n = some s) : ∃ s', b'.session n = some s' ∧ s.Next b'.IsOver s'.register := by
  cases hstride with
  | session now n₀ s₀ s₁ event hs₀ hplain hstep =>
      refine next_putSession hs hs₀ (.event now event s₁ hstep ?_)
      rintro _ _ _ _ _ rfl
      cases hplain
  | checked n₀ s₀ owned hs₀ =>
      have hsame : ({ s₀ with owned := owned } : Session).register = s₀.register := rfl
      exact next_putSession hs hs₀ (hsame ▸ .same)
  | founded t s₀ hmake =>
      have hne : n ≠ b.nextNumber := Nat.ne_of_lt (h.numbered n s hs)
      have hget := session_putSession b b.nextNumber n s₀
      rw [if_neg hne] at hget
      exact ⟨s, hget.trans hs, .same⟩
  | attended k a b' ha hopen hcourse => exact next_course h ha hopen hcourse hs
  | accepted | relinked => exact ⟨s, hs, .same⟩

theorem next_of_dials {spent : Nat → Prop} (hdials : b.Dials b') (hs : b.session n = some s) :
    ∃ s', b'.session n = some s' ∧ s.Next spent s'.register := by
  cases hdials with
  | dial n₀ s₀ a free giveUp hs₀ hmay hfree =>
      have hs₀' : (b.enter free (dialing n₀ a giveUp)).session n₀ = some s₀ := hs₀
      exact next_putSession hs hs₀' .same

theorem session_of_stride (hstride : b.Stride b') (hs' : b'.session n = some s') :
    (∃ s, b.session n = some s)
      ∨ ∃ t, Session.make b.peerId t b.options.connection b.options.reservation = .ok s' := by
  have hput : ∀ {n₀ s₀ s₁ s₂}, b.session n₀ = some s₀ →
      (b.putSession n₀ s₁).session n = some s₂ → ∃ s, b.session n = some s := by
    intro n₀ s₀ s₁ s₂ hs₀ hget
    rcases session_of_putSession hget with ⟨rfl, _⟩ | ⟨_, hs₂⟩
    · exact ⟨s₀, hs₀⟩
    · exact ⟨s₂, hs₂⟩
  have hsettled : ∀ {b₀ : Books} {a : Attempt}, (b₀.settle a).session n = some s' →
      ∃ s, b₀.session n = some s := by
    intro b₀ a hget
    rcases session_of_settle hget with ⟨_, s, hs, _⟩ | ⟨_, hs⟩
    · exact ⟨s, hs⟩
    · exact ⟨s', hs⟩
  cases hstride with
  | session now n₀ s₀ s₁ event hs₀ hplain hstep => exact Or.inl (hput hs₀ hs')
  | checked n₀ s₀ owned hs₀ => exact Or.inl (hput hs₀ hs')
  | founded t s₀ hmake =>
      have hput : (b.putSession b.nextNumber s₀).session n = some s' := hs'
      rcases session_of_putSession hput with ⟨_, rfl⟩ | ⟨_, hs⟩
      · exact Or.inr ⟨t, hmake⟩
      · exact Or.inl ⟨s', hs⟩
  | attended k a b' ha hopen hcourse =>
      cases hcourse with
      | goesOn a' haddress hdialer hholds hpending => exact Or.inl ⟨s', hs'⟩
      | abandoned link => exact Or.inl (hsettled hs')
      | promoted now taker s₀ s₁ link hand buffer hs₀ hadd =>
          obtain ⟨s, hs⟩ := hsettled hs'
          have hbefore : (b.putSession taker s₁).session n = some s := hs
          exact Or.inl (hput hs₀ hbefore)
  | accepted | relinked => exact Or.inl ⟨s', hs'⟩

theorem session_of_dials (hdials : b.Dials b') (hs' : b'.session n = some s') :
    ∃ s, b.session n = some s := by
  cases hdials with
  | dial n₀ s₀ a free giveUp hs₀ hmay hfree =>
      rcases session_of_putSession hs' with ⟨rfl, _⟩ | ⟨_, hs⟩
      · exact ⟨s₀, hs₀⟩
      · exact ⟨s', hs⟩

theorem RosterKept.stride (h : RosterKept peerId options b) (hstride : b.Stride b') :
    RosterKept peerId options b' := by
  have hpeerId : b'.peerId = b.peerId := by
    cases hstride with
    | attended k a b' ha hopen hcourse => cases hcourse <;> rfl
    | _ => rfl
  refine ⟨hpeerId.trans h.peerId_eq, h.slots.stride hstride, h.numbered.stride hstride, ?_⟩
  intro n s' hs'
  rcases session_of_stride hstride hs' with ⟨s, hs⟩ | ⟨t, hmake⟩
  · obtain ⟨s₁, hs₁, hnext⟩ := next_of_stride h hstride hs
    cases hs₁.symm.trans hs'
    exact Session.enrolled_next (h.enrolled n s hs) (fun k hk => hk.stride h.slots hstride) hnext
  · rw [h.peerId_eq] at hmake
    exact Session.enrolled_of_make hmake

theorem RosterKept.dials (h : RosterKept peerId options b) (hdials : b.Dials b') :
    RosterKept peerId options b' := by
  have hpeerId : b'.peerId = b.peerId := by
    cases hdials
    rfl
  refine ⟨hpeerId.trans h.peerId_eq, h.slots.dials hdials, h.numbered.dials hdials, ?_⟩
  intro n s' hs'
  obtain ⟨s, hs⟩ := session_of_dials hdials hs'
  obtain ⟨s₁, hs₁, hnext⟩ := next_of_dials hdials hs
  cases hs₁.symm.trans hs'
  exact Session.enrolled_next (h.enrolled n s hs) (fun k hk => hk.dials h.slots hdials) hnext

/-- A session has this connection of a peer, and lists it unless it is leaving. -/
def Retains (b : Books) (n : Nat) (id : Identifier) (k : Nat) : Prop :=
  ∃ s, b.session n = some s ∧ s.register.Retains id k

theorem Retains.stride {id : Identifier} (h : b.Retains n id k)
    (hroster : RosterKept peerId options b)
    (hstride : b.Stride b') : b'.Retains n id k := by
  obtain ⟨s, hs, hretains⟩ := h
  obtain ⟨s', hs', hnext⟩ := next_of_stride hroster hstride hs
  exact ⟨s', hs', Session.retains_next (hroster.enrolled n s hs).roster hretains hnext⟩

theorem Retains.dials {id : Identifier} (h : b.Retains n id k)
    (hroster : RosterKept peerId options b)
    (hdials : b.Dials b') : b'.Retains n id k := by
  obtain ⟨s, hs, hretains⟩ := h
  obtain ⟨s', hs', hnext⟩ : ∃ s', b'.session n = some s' ∧ s.Next b'.IsOver s'.register :=
    next_of_dials hdials hs
  exact ⟨s', hs', Session.retains_next (hroster.enrolled n s hs).roster hretains hnext⟩

end Books

namespace Swarm

open Books

variable {w w' : Swarm} {peerId : Identifier} {options : SwarmOptions} {start now : Nanoseconds}
  {number taker : Nat} {s : Session} {hand : Handshake} {events : List (Nanoseconds × Event)}

theorem rosterKept_make (peerId : Identifier) (options : SwarmOptions) (start : Nanoseconds) :
    RosterKept peerId options (make peerId options start).books where
  peerId_eq := rfl
  slots := slotsKept_make peerId options start
  numbered := fun _ _ h => nomatch h
  enrolled := fun _ _ h => nomatch h

theorem rosterKept_run (hrun : run? events (make peerId options start) = some w) :
    RosterKept peerId options w.books :=
  run_invariant RosterKept.stride RosterKept.dials (rosterKept_make peerId options start) hrun

/-! ### Promotion -/

theorem promote_of_refused {a : Attempt} {x : Exchange} {e : Error}
    (htaker : w.taker? a hand = some (taker, s))
    (hadd : s.addPeer now number a.link a.address hand x.buffer = .error e) :
    w.promote now number a x hand = w.abandon number a := by
  rw [promote, htaker]
  simp only [hadd]

theorem session_promote {a : Attempt} {x : Exchange} {s' : Session}
    (htaker : w.taker? a hand = some (taker, s))
    (hadd : s.addPeer now number a.link a.address hand x.buffer = .ok s') :
    ∃ connecting, (w.promote now number a x hand).sessions.get? taker
      = some { s' with connecting := connecting } := by
  rw [promote, htaker]
  simp only [hadd]
  generalize (w.releaseSlot number a).modifyAttempt number _ = w₁
  have hbooks := books_doneConnecting { w₁ with sessions := w₁.sessions.insert taker s' } a
  rw [books_insertSession] at hbooks
  have hput : (w₁.books.putSession taker s').session taker = some s' := by simp
  obtain ⟨connecting, hsettled⟩ := session_settle hput a
  exact ⟨connecting, (congrFun (congrArg Books.session hbooks) taker).trans hsettled⟩

theorem session_abandon {a : Attempt} {n : Nat} (ha : w.attempts.get? number = some a)
    (hs : w.sessions.get? n = some s) :
    ∃ connecting, (w.abandon number a).sessions.get? n
      = some { s with connecting := connecting } := by
  have hfinished : (w.books.finish number a a.link.hangUp).session n = some s := hs
  obtain ⟨connecting, hsettled⟩ := session_settle hfinished a
  have hbooks := congrFun (congrArg Books.session (books_abandon ha)) n
  exact ⟨connecting, hbooks.trans hsettled⟩

/-- The session that is to take the link of an attempt, with its number, if the next step of the
attempt is the one that completes the handshakes. -/
def offer? (w : Swarm) (now : Nanoseconds) (number : Nat) : Option (Nat × Session × Handshake) :=
  (w.attempts.get? number).bind fun a => match a.phase with
    | .exchanging x => (x.step? w.isServed now a.link).bind fun (x', _) => match x'.result? with
      | some (.ok h) => (w.taker? a h).map fun (taker, s) => (taker, s, h)
      | _ => none
    | _ => none

theorem exchange?_of_offer? (h : w.offer? now number = some (taker, s, hand)) :
    ∃ (a a' : Attempt) (x' : Exchange) (w₁ : Swarm), w.attempts.get? number = some a
      ∧ a.isOpen = true ∧ w.exchange? now number = some (w₁.promote now number a' x' hand)
      ∧ w₁.attempts.get? number = some a' ∧ w₁.sessions = w.sessions
      ∧ w₁.taker? a' hand = some (taker, s) := by
  obtain ⟨a, ha, h⟩ := Option.bind_eq_some_iff.mp h
  split at h
  · next x hphase =>
    obtain ⟨⟨x', link⟩, hstep, h⟩ := Option.bind_eq_some_iff.mp h
    simp only at h
    split at h
    · next hand' hresult =>
      obtain ⟨⟨taker', s'⟩, htaker, heq⟩ := Option.map_eq_some_iff.mp h
      cases heq
      refine ⟨a, { a with phase := .exchanging x', link := link }, x',
        w.modifyAttempt number fun _ =>
        { a with phase := .exchanging x', link := link }, ha,
        isOpen_of_exchanging hphase, ?_, get?_modifyAttempt ha _, rfl, htaker⟩
      unfold exchange?
      simp only [ha, hphase, hstep, hresult]
    · cases h
  · cases h

/-- In every run of a swarm no session lists ourselves. A peer that a session lists already, and
ourselves, are refused, which changes nothing in any session but that an address may be dialed
again; another peer is taken, and everybody else stays as it is. Whatever happens later, a peer
stays listed with its connection unless that has ended or was told to end, and closing out a
connection takes no other one off the list. -/
theorem first_connection_stays (hrun : run? events (make peerId options start) = some w) :
    (∀ n s, w.sessions.get? n = some s → s.peers.get? peerId = none)
      ∧ (∀ now number taker s h, w.offer? now number = some (taker, s, h) →
        (h.peerId = peerId ∨ (s.peers.get? h.peerId).isSome = true) →
        ∃ w', w.act? now (.exchange number) = some w' ∧ ∀ n s, w.sessions.get? n = some s →
          ∃ connecting, w'.sessions.get? n = some { s with connecting := connecting })
      ∧ (∀ now number taker s h, w.offer? now number = some (taker, s, h) → h.peerId ≠ peerId →
        s.peers.get? h.peerId = none → s.members.get? number = none
          ∧ ∃ w' s', w.act? now (.exchange number) = some w' ∧ w'.sessions.get? taker = some s'
            ∧ s'.peers = s.peers.insert h.peerId number
            ∧ ∀ k, k ≠ number → s'.members.get? k = s.members.get? k)
      ∧ (∀ n s id k, w.sessions.get? n = some s → s.peers.get? id = some k →
        ∀ later w', run? later w = some w' → ∃ s' m, w'.sessions.get? n = some s'
          ∧ s'.members.get? k = some m ∧ m.connection.peerId = id
          ∧ (m.connection.hasEnded = false → m.connection.cancelled = false →
            s'.peers.get? id = some k))
      ∧ ∀ now n s k w', w.sessions.get? n = some s → w.act? now (.session n (.closeOut k)) = some w'
        →
        ∃ s', w'.sessions.get? n = some s'
          ∧ ∀ id, s'.peers.get? id = (s.peers.get? id).filter (· != k) := by
  have hkept := rosterKept_run hrun
  refine ⟨fun n s hs => ?_, ?_, ?_, ?_, ?_⟩
  · obtain ⟨hown, hroster, -⟩ := hkept.enrolled n s hs
    exact hown ▸ hroster.get?_ownId
  · intro now number taker s h hoffer hrefused
    obtain ⟨_, a, x, w₁, -, -, heq, ha, hsessions, htaker⟩ := exchange?_of_offer? hoffer
    have hs : w.sessions.get? taker = some s := hsessions ▸ session_of_taker? htaker
    have hown : s.ownId = peerId := (hkept.enrolled taker s hs).ownId
    rw [← hown] at hrefused
    obtain ⟨e, hadd⟩ : ∃ e, s.addPeer now number a.link a.address h x.buffer = .error e :=
      Session.addPeer_eq_error hrefused
    rw [promote_of_refused htaker hadd] at heq
    refine ⟨_, heq, fun n s₀ hs₀ => session_abandon ha ?_⟩
    rw [hsessions, hs₀]
  · intro now number taker s h hoffer hother hfirst
    obtain ⟨a₀, a, x, w₁, ha₀, hopen, heq, ha, hsessions, htaker⟩ := exchange?_of_offer? hoffer
    have hs : w.sessions.get? taker = some s := hsessions ▸ session_of_taker? htaker
    have hown : s.ownId = peerId := (hkept.enrolled taker s hs).ownId
    rw [← hown] at hother
    obtain ⟨s', hadd, hpeers, hmembers⟩ : ∃ s',
        s.addPeer now number a.link a.address h x.buffer = .ok s'
          ∧ s'.peers = s.peers.insert h.peerId number
          ∧ ∀ k, k ≠ number → s'.members.get? k = s.members.get? k :=
      Session.exists_addPeer hother hfirst
    obtain ⟨connecting, hs'⟩ := session_promote htaker hadd
    exact ⟨hkept.get?_member hs ha₀ hopen, _, _, heq, hs', hpeers, hmembers⟩
  · intro n s id k hs hlisted later w' hlater
    have hretains : w.books.Retains n id k :=
      ⟨s, hs, (hkept.enrolled n s hs).roster.retains hlisted⟩
    have hthen : RosterKept peerId options w'.books ∧ w'.books.Retains n id k :=
      run_invariant (P := fun b => RosterKept peerId options b ∧ b.Retains n id k)
        (fun h hstride => ⟨h.1.stride hstride, h.2.stride h.1 hstride⟩)
        (fun h hdials => ⟨h.1.dials hdials, h.2.dials h.1 hdials⟩) ⟨hkept, hretains⟩ hlater
    obtain ⟨-, s', hs', d, hduty, hpeer, hstays⟩ := hthen
    obtain ⟨m, hm, rfl⟩ := Session.member_of_duty hduty
    refine ⟨s', m, hs', hm, hpeer, fun hgoesOn hlive => hstays ?_⟩
    exact Bool.or_eq_false_iff.mpr ⟨hgoesOn, hlive⟩
  · intro now n s k w' hs hact
    rw [act?, hs] at hact
    obtain ⟨s', hstep, rfl⟩ := Option.map_eq_some_iff.mp hact
    obtain ⟨d, hduty, -, -, hregister⟩ := Session.register_closeOut hstep
    refine ⟨s', Table.get?_insert_self, fun id => ?_⟩
    show s'.register.peers.get? id = _
    rw [hregister]
    exact (hkept.enrolled n s hs).roster.get?_closeOut hduty id

def connectsTwice : List (Nanoseconds × Event) :=
  let link : Link :=
    ⟨(Pipe.make 4096).append (Handshake.plain .zero (.ofStart [1])).encode, .make 4096⟩
  let accept : Event := .accept link ⟨.v4 [127, 0, 0, 1], 6881⟩
  ([.beginAdd { Session.twoPieces with initial := .nothing }, .finishAdd 0, accept,
    .own (.exchange 1), .own (.exchange 1), accept, .own (.exchange 2)] : List Event).map
      fun event => (0, event)

/-- The second connection is refused, and the first one stays as it is. -/
theorem first_connection_stays_connectsTwice : ∃ w w' s h connecting,
    run? connectsTwice (make .zero {} 0) = some w ∧ w.sessions.get? 0 = some s
      ∧ w.offer? 0 2 = some (0, s, h) ∧ s.peers.get? h.peerId = some 1
      ∧ w.act? 0 (.exchange 2) = some w'
      ∧ w'.sessions.get? 0 = some { s with connecting := connecting } := by
  have hdone : (run? connectsTwice (make .zero {} 0)).any (fun w => (w.offer? 0 2).any fun (n, s, h) =>
      decide (n = 0 ∧ s.peers.get? h.peerId = some 1)) = true := by
    decide +kernel
  obtain ⟨w, hrun, htest⟩ := (Option.any_eq_true _ _).mp hdone
  obtain ⟨⟨n, s, h⟩, hoffer, htest⟩ := (Option.any_eq_true _ _).mp htest
  obtain ⟨rfl, hlisted⟩ := of_decide_eq_true htest
  obtain ⟨_, _, _, _, -, -, -, -, hsessions, htaker⟩ := exchange?_of_offer? hoffer
  have hs : w.sessions.get? 0 = some s := hsessions ▸ session_of_taker? htaker
  obtain ⟨-, hrefused, -⟩ := first_connection_stays hrun
  obtain ⟨w', hact, hsame⟩ := hrefused 0 2 0 s h hoffer (Or.inr (by rw [hlisted]; rfl))
  obtain ⟨connecting, hs'⟩ := hsame 0 s hs
  exact ⟨w, w', s, h, connecting, hrun, hs, hoffer, hlisted, hact, hs'⟩

end Swarm

end TorrentCore
