import TorrentCore.Proofs.Session.Register

/-!
# What becomes of the register

`Shift` has a case for every way in which an event can change the register of a session. It is the
only place where the steps of a session are taken apart for what is proved of its register: a
property of the register is checked against these cases, and holds of every run if each of them
keeps it.
-/

namespace TorrentCore

namespace Session

/-- The requester of a connection picks a piece. -/
def Picks (s : Session) (number index : Nat) : Prop :=
  ∃ m coins, s.members.get? number = some m ∧ m.requester = .choosing
    ∧ s.pick m.connection true coins = some index

/-- What a requester can do. Where it goes on is told by what it comes to in the end. -/
inductive Move (s : Session) (now : Nanoseconds) (number : Nat) (d : Duty) : Register → Prop
  /-- It gives up only if it was about to, takes its leave only when all is there, and claims only
  what it has picked. -/
  | onward (r : Requester) (hretired : r.final = .retired → d.requester.final = .retired)
      (hparting : r.final = .parting → d.requester.final = .parting ∨ s.isFinished = true)
      (hclaiming : ∀ index, r.final = .claiming index →
        d.requester.final = .claiming index ∨ s.Picks number index) :
      Move s now number d (s.register.modify number (Duty.assign r))
  | paused (hchoosing : d.requester = .choosing) (hpaused : s.paused = true)
      (hmissing : s.isFinished = false) :
      Move s now number d (s.register.modify number (Duty.assign .retired))
  | refused (parcel : Parcel) (after : Requester) (hsending : d.requester = .sending parcel after) :
      Move s now number d
        ((s.register.modify number (Duty.assign .retired)).modify number Duty.tell)
  | parted (told : Bool) (hparting : d.requester = .parting) :
      Move s now number d (if told
        then (s.register.modify number (Duty.assign .retired)).modify number Duty.tell
        else s.register.modify number (Duty.assign .retired))
  | claimed (index : Nat) (reservations : Reservations) (cursor : Geometry.Cursor)
      (hclaiming : d.requester = .claiming index)
      (hreserve : s.reservations.reserve? now index (s.policy.ttl s.owned.ratio)
        = some reservations) :
      Move s now number d (Register.modify { s.register with
          reservations := reservations
          owners := s.owners.insert index d.fate.peerId } number
        (Duty.assign (.asking index (now + s.policy.ttl s.owned.ratio) cursor)))

inductive Shift (now : Nanoseconds) (s : Session) : Event → Register → Prop
  | quiet (event : Event) : Shift now s event s.register
  | onward (action : Action) (number : Nat) (d : Duty) (link : Link)
      (hduty : s.register.duty number = some d) (hlink : d.link.Onward link) :
      Shift now s (.own action) (s.register.modify number fun d => { d with link := link })
  | ended (action : Action) (number : Nat) (result : Except Error Unit) :
      Shift now s (.own action) (s.register.modify number fun d => d.finish result)
  | told (event : Event) (number : Nat) : Shift now s event (s.register.modify number Duty.tell)
  | requested (number : Nat) (coins : List Bool) (d : Duty) (r : Register)
      (hduty : s.register.duty number = some d) (hrunning : d.fate.status = .running)
      (hactive : d.requester ≠ .retired) (hmove : Move s now number d r) :
      Shift now s (.own (.request number coins)) r
  | closedOut (number : Nat) (d : Duty) (hduty : s.register.duty number = some d)
      (hended : d.hasEnded = true) (hopen : d.closedOut = false) :
      Shift now s (.own (.closeOut number)) (s.register.closeOut number d.fate.peerId)
  | finished (piece : AssembledPiece) (hverifying : s.verifying = some piece)
      (hactive : s.cancelled = false) :
      Shift now s (.own .finishPiece) (s.register.release piece.piece)
  | expired (expiry : ExpiryLoop) (reservations : Reservations)
      (hstep : s.expiry.step? now s.reservations = some (expiry, reservations)) :
      Shift now s (.own .expire) { s.register with reservations := reservations }
  | joined (number : Nat) (link : Link) (address : Address) (h : Handshake) (buffer : ReadBuffer)
      (hfresh : s.register.duty number = none) (hother : h.peerId ≠ s.ownId)
      (hfirst : s.peers.get? h.peerId = none) :
      Shift now s (.connect number link address h buffer)
        (s.register.enter number ⟨⟨h.peerId, .running, s.cancelled⟩, link, .greeting, false⟩)
  | relinked (number : Nat) (link : Link) :
      Shift now s (.farEnd number link) (s.register.modify number fun d => { d with link := link })
  | pause : Shift now s .pause { s.register with paused := true }
  | resume : Shift now s .resume { s.register with paused := false }
  | dropped : Shift now s .dropAllPeers
      { s.peers.values.foldl (fun r number => r.modify number Duty.tell) s.register with
        peers := .empty }
  | swept : Shift now s .removeFinishedPeers { s.register with
      peers := s.peers.filter fun _ number => (s.register.duty number).any fun d => !d.closedOut }
  | shutdown : Shift now s .shutdown { s.register with
      cancelled := true
      peers := .empty
      duty := fun number => (s.register.duty number).map Duty.tell }

/-! ### Requesters -/

theorem final_ask (s : Session) (number : Nat) (m : Message) (after : Requester) :
    ∃ r : Requester, r.final = after.final
      ∧ (s.ask number m after).register = s.register.modify number (Duty.assign r) :=
  ⟨.sending _ after, rfl, register_setRequester { s with hub := (s.hub.pack m).2 } number _⟩

theorem final_tell (s : Session) (number : Nat) (c : Connection) (interested : Bool)
    (after : Requester) : ∃ r : Requester, r.final = after.final
      ∧ (s.tell number c interested after).register = s.register.modify number (Duty.assign r) := by
  unfold tell
  split
  · exact ⟨after, rfl, register_setRequester s number after⟩
  · exact final_ask s number _ after

/-- Neither an end nor a claim: a requester may go on to it whatever it did before. -/
def isPlain : Requester → Bool
  | .retired | .parting | .claiming _ => false
  | _ => true

theorem Move.of_final {s s' : Session} {now : Nanoseconds} {number : Nat} {d : Duty}
    {after : Requester} (h : ∃ r : Requester, r.final = after.final
      ∧ s'.register = s.register.modify number (Duty.assign r))
    (hplain : isPlain after.final = true) : Move s now number d s'.register := by
  obtain ⟨r, hfinal, hregister⟩ := h
  have hnot : ∀ {other : Requester}, isPlain other = false → r.final ≠ other := by
    rintro other hother rfl
    rw [← hfinal, hother] at hplain
    cases hplain
  rw [hregister]
  exact .onward r (fun hr => absurd hr (hnot rfl)) (fun hp => absurd hp (hnot rfl))
    fun _ hc => absurd hc (hnot rfl)

theorem move_choose {s : Session} {now : Nanoseconds} {number : Nat} {m : Member}
    (hm : s.members.get? number = some m) (hchoosing : m.requester = .choosing)
    (coins : List Bool) :
    Move s now number (duty m) (s.choose number m.connection coins).register := by
  unfold choose
  split
  · next hfinished =>
    obtain ⟨r, hfinal, hregister⟩ := final_tell s number m.connection false .parting
    rw [hregister]
    exact .onward r (fun hr => by rw [hfinal] at hr; cases hr) (fun _ => Or.inr hfinished)
      fun _ hc => by rw [hfinal] at hc; cases hc
  · next hmissing =>
    split
    · next hpaused =>
      rw [register_setRequester]
      exact .paused hchoosing hpaused (by simpa using hmissing)
    · split
      · next index hpick =>
        obtain ⟨r, hfinal, hregister⟩ := final_tell s number m.connection true (.claiming index)
        rw [hregister]
        refine .onward r (fun hr => by rw [hfinal] at hr; cases hr)
          (fun hp => by rw [hfinal] at hp; cases hp) fun index' hc => Or.inr ?_
        rw [hfinal] at hc
        cases hc
        exact ⟨m, coins, hm, hchoosing, hpick⟩
      · exact .of_final (final_tell s number m.connection _ .resting) rfl

theorem move_claim {s : Session} {now : Nanoseconds} {number index : Nat} {d : Duty}
    (hclaiming : d.requester = .claiming index) {c : Connection}
    (hpeer : c.peerId = d.fate.peerId) :
    Move s now number d (s.claim now number c index).register := by
  unfold claim
  split
  · rw [register_setRequester]
    exact .onward _ nofun nofun nofun
  split
  · rw [register_setRequester]
    exact .onward _ nofun nofun nofun
  simp only
  split
  · rw [register_setRequester]
    exact .onward _ nofun nofun nofun
  · next reservations hreserve =>
    rw [register_setRequester, hpeer]
    exact .claimed index reservations _ hclaiming hreserve

theorem move_request {s s' : Session} {now : Nanoseconds} {number : Nat} {coins : List Bool}
    (h : s.request? now number coins = some s') :
    ∃ d, s.register.duty number = some d ∧ d.fate.status = .running ∧ d.requester ≠ .retired
      ∧ Move s now number d s'.register := by
  unfold request? at h
  split at h
  · cases h
  next m hm =>
  simp only at h
  split at h
  · cases h
  next hrunning =>
  rw [Bool.not_eq_true', Bool.not_eq_false] at hrunning
  have hactive : m.requester ≠ .retired := by
    intro hretired
    rw [hretired] at h
    cases h
  refine ⟨duty m, duty_of_member hm, Connection.status_of_isRunning hrunning, hactive, ?_⟩
  cases hphase : m.requester with
  | sending parcel after =>
      rw [hphase] at h
      simp only at h
      split at h
      · next hsent =>
        cases h
        rw [register_setRequester, register_of_sent hsent]
        have hfinal : m.requester.final = after.final := by
          rw [hphase]
          rfl
        exact .onward after (fun hr => hfinal.trans hr) (fun hp => Or.inl (hfinal.trans hp))
          fun _ hc => Or.inl (hfinal.trans hc)
      · next hrefused =>
        cases h
        rw [register_disconnect, register_setRequester, register_of_refused hrefused]
        exact .refused parcel after hphase
      · cases h
  | choosing =>
      rw [hphase] at h
      cases h
      exact move_choose hm hphase coins
  | claiming index =>
      rw [hphase] at h
      cases h
      exact move_claim hphase rfl
  | parting =>
      rw [hphase] at h
      cases h
      split
      · rw [register_disconnect, register_setRequester]
        exact .parted true hphase
      · rw [register_setRequester]
        exact .parted false hphase
  | retired => exact absurd hphase hactive
  | greeting =>
      rw [hphase] at h
      cases h
      split
      · exact .of_final ⟨_, rfl, register_setRequester s number _⟩ rfl
      · exact .of_final (final_ask s number _ _) rfl
  | unchoking =>
      rw [hphase] at h
      cases h
      exact .of_final (final_ask s number _ _) rfl
  | asking index deadline cursor =>
      rw [hphase] at h
      simp only at h
      split at h
      · cases h
        exact .of_final (final_ask s number _ _) rfl
      · cases h
        exact .of_final ⟨_, rfl, register_setRequester s number _⟩ rfl
  | awaitingPieces | awaitingUnchoke | holding _ _ | awaitingPiece _ _ _ | resting | idle _ _ _ =>
      -- These go on at once, or wait.
      rw [hphase] at h
      simp only at h
      repeat' split at h
      all_goals cases h
      all_goals
        exact .of_final ⟨_, rfl, register_setRequester s number _⟩ rfl

/-! ### Connections -/

theorem shift_connectionStep {now : Nanoseconds} {s s' : Session} {number : Nat} {action : Action}
    {step : Endpoint → Option Endpoint} (hstep : ∀ e e', step e = some e' → e.Advances e')
    (h : s.connectionStep? number step = some s') : Shift now s (.own action) s'.register := by
  unfold connectionStep? at h
  split at h
  · cases h
  next e he =>
  obtain ⟨e', he', rfl⟩ := Option.map_eq_some_iff.mp h
  obtain ⟨d, hduty, hfate, hlink⟩ := duty_of_endpoint? he
  rw [register_putEndpoint]
  cases hstep e e' he' with
  | onward _ hsame hmoved =>
      rw [Register.modify_eq hduty (g := fun d => { d with link := e'.link })
        (by rw [hsame, ← hfate])]
      exact .onward action number d e'.link hduty (hlink ▸ hmoved)
  | ended result _ hended hhung =>
      rw [Register.modify_eq hduty (g := fun d => d.finish result)
        (by rw [hended, hhung, ← hlink, Duty.finish, hfate]; rfl)]
      exact .ended action number result

theorem register_connect {now : Nanoseconds} {s s' : Session} {number : Nat} {link : Link}
    {address : Address} {handshake : Handshake} {buffer : ReadBuffer}
    (h : s.happen? now (.connect number link address handshake buffer) = some s') :
    s.register.duty number = none ∧ handshake.peerId ≠ s.ownId
      ∧ s.peers.get? handshake.peerId = none ∧ s'.register = s.register.enter number
        ⟨⟨handshake.peerId, .running, s.cancelled⟩, link, .greeting, false⟩ := by
  rw [happen?] at h
  split at h
  · cases h
  next hfresh =>
  rw [Option.not_isSome_iff_eq_none] at hfresh
  cases hadd : s.addPeer now number link address handshake buffer with
  | ok added =>
      rw [hadd] at h
      cases h
      exact ⟨congrArg (Option.map duty) hfresh, register_addPeer hadd⟩
  | error e =>
      rw [hadd] at h
      cases h

theorem shift_told {now : Nanoseconds} {s s' : Session} {event : Event}
    (h : s'.register = s.register ∨ ∃ number, s'.register = s.register.modify number Duty.tell) :
    Shift now s event s'.register := by
  rcases h with hsame | ⟨number, htold⟩
  · rw [hsame]
    exact .quiet event
  · rw [htold]
    exact .told event number

/-! ### Events -/

theorem shift_act {now : Nanoseconds} {s s' : Session} {action : Action}
    (h : s.act? now action = some s') : Shift now s (.own action) s'.register := by
  cases action with
  | stop number => exact shift_connectionStep (fun _ _ => Endpoint.advances_stop) h
  | receive number => exact shift_connectionStep (fun _ _ => Endpoint.advances_receive) h
  | transmit number => exact shift_connectionStep (fun _ _ => Endpoint.advances_transmit) h
  | closeOut number =>
      obtain ⟨d, hduty, hended, hopen, hregister⟩ := register_closeOut h
      rw [hregister]
      exact .closedOut number d hduty hended hopen
  | request number coins =>
      obtain ⟨d, hduty, hrunning, hactive, hmove⟩ := move_request h
      exact .requested number coins d _ hduty hrunning hactive hmove
  | announce position late => exact register_sendAnnouncement h ▸ .quiet _
  | consume => exact register_consume h ▸ .quiet _
  | finishPiece =>
      obtain ⟨piece, hverifying, hregister⟩ := register_finishPiece h
      rw [hregister]
      split
      · exact .quiet _
      · next hactive => exact .finished piece hverifying (by simpa using hactive)
  | pickUpload => exact shift_told (register_pickUpload h)
  | readUpload => exact register_readUpload h ▸ .quiet _
  | sendUpload late => exact register_sendUpload h ▸ .quiet _
  | expire =>
      rw [act?, expire?] at h
      split at h
      · cases h
      · obtain ⟨⟨expiry, reservations⟩, hstep, rfl⟩ := Option.map_eq_some_iff.mp h
        exact .expired expiry reservations hstep

theorem staying_eq (s : Session) : (fun (_ : Identifier) number =>
    (s.register.duty number).any fun d => !d.closedOut) = fun _ number =>
      match s.members.get? number with
      | some m => !m.closedOut
      | none => false := by
  funext _ number
  show ((s.members.get? number).map duty).any _ = _
  cases s.members.get? number <;> rfl

theorem shift_of_happen {now : Nanoseconds} {s s' : Session} {event : Event}
    (h : s.happen? now event = some s') : Shift now s event s'.register := by
  cases event with
  | own action => exact shift_act h
  | connect number link address handshake buffer =>
      obtain ⟨hfresh, hother, hfirst, hregister⟩ := register_connect h
      rw [hregister]
      exact .joined number link address handshake buffer hfresh hother hfirst
  | farEnd number link =>
      cases h
      rw [register_modify s number (g := fun d => { d with link := link }) fun _ => rfl]
      exact .relinked number link
  | disconnect number =>
      cases h
      exact register_disconnect s number ▸ .told _ number
  | send number m late => exact register_send h ▸ .quiet _
  | pause =>
      cases h
      exact .pause
  | resume =>
      cases h
      exact .resume
  | dropAllPeers =>
      cases h
      exact register_dropAllPeers s ▸ .dropped
  | removeFinishedPeers =>
      cases h
      have hswept : Shift now s .removeFinishedPeers _ := .swept
      rw [staying_eq] at hswept
      exact hswept
  | addAddress a =>
      cases h
      have hsame : (s.addAddress a).2.register = s.register := by
        unfold addAddress
        split <;> rfl
      exact hsame ▸ .quiet _
  | startConnecting a | doneConnecting a =>
      cases h
      exact .quiet _
  | shutdown =>
      cases h
      exact register_shutdown s ▸ .shutdown

/-! ### One entry -/

/-- What an event can do to the entry of one connection. -/
inductive Change (now : Nanoseconds) (s : Session) (event : Event) (number : Nat) (d : Duty) :
    Duty → Prop
  | same : Change now s event number d d
  | onward (link : Link) (hlink : d.link.Onward link) :
      Change now s event number d { d with link := link }
  | ended (result : Except Error Unit) : Change now s event number d (d.finish result)
  | told : Change now s event number d d.tell
  | relinked (link : Link) (hevent : event = .farEnd number link) :
      Change now s event number d { d with link := link }
  | closedOut (hended : d.hasEnded = true) (hevent : event = .own (.closeOut number)) :
      Change now s event number d { d with requester := .retired, closedOut := true }
  /-- A requester gives up when it is refused, when it has taken its leave, or when it looks for
  something to do while the session is paused. -/
  | asked (coins : List Bool) (r : Requester) (refused : Bool)
      (hevent : event = .own (.request number coins)) (hactive : d.requester ≠ .retired)
      (hretired : r.final = .retired → refused = true ∨ d.requester.final = .retired
        ∨ d.requester.final = .parting ∨ (d.requester = .choosing ∧ s.paused = true))
      (hparting : r.final = .parting → d.requester.final = .parting ∨ s.isFinished = true)
      (hclaiming : ∀ index, r.final = .claiming index →
        d.requester.final = .claiming index ∨ s.Picks number index) :
      Change now s event number d (if refused then (d.assign r).tell else d.assign r)

theorem Change.peerId_eq {now : Nanoseconds} {s : Session} {event : Event} {number : Nat}
    {d d' : Duty} (h : Change now s event number d d') : d'.fate.peerId = d.fate.peerId := by
  cases h with
  | asked coins r refused => cases refused <;> rfl
  | _ => rfl

theorem Change.onward_or_ended {now : Nanoseconds} {s : Session} {event : Event} {number : Nat}
    {d d' : Duty} (h : Change now s event number d d')
    (hfar : ∀ link, event ≠ .farEnd number link) :
    d.link.Onward d'.link ∨ d'.hasEnded = true := by
  cases h with
  | same | told | closedOut => exact Or.inl (.refl d.link)
  | onward link hlink => exact Or.inl hlink
  | ended => exact Or.inr rfl
  | relinked link hevent => exact absurd hevent (hfar link)
  | asked coins r refused => cases refused <;> exact Or.inl (.refl d.link)

theorem duty_foldl_tell (r : Register) (numbers : List Nat) (n : Nat) :
    (numbers.foldl (fun r number => r.modify number Duty.tell) r).duty n = r.duty n
      ∨ (numbers.foldl (fun r number => r.modify number Duty.tell) r).duty n
        = (r.duty n).map Duty.tell := by
  induction numbers generalizing r with
  | nil => exact Or.inl rfl
  | cons number numbers ih =>
      have htwice : ((r.duty n).map Duty.tell).map Duty.tell = (r.duty n).map Duty.tell := by
        rw [Option.map_map]
        rfl
      rw [List.foldl_cons]
      have hafter := ih (r.modify number Duty.tell)
      rw [Register.duty_modify] at hafter
      split at hafter
      · next heq =>
        subst heq
        rw [htwice, or_self] at hafter
        exact Or.inr hafter
      · exact hafter

theorem foldl_tell_eq (r : Register) (numbers : List Nat) :
    ∃ duty, numbers.foldl (fun r number => r.modify number Duty.tell) r
      = { r with duty := duty } := by
  induction numbers generalizing r with
  | nil => exact ⟨r.duty, rfl⟩
  | cons number numbers ih => exact ih (r.modify number Duty.tell)

theorem change_modify {now : Nanoseconds} {s : Session} {event : Event} {number n : Nat} {d : Duty}
    {f : Duty → Duty} (hduty : s.register.duty n = some d)
    (hchange : n = number → Change now s event n d (f d)) :
    ∃ d', (s.register.modify number f).duty n = some d' ∧ Change now s event n d d' := by
  rw [Register.duty_modify]
  split
  · next heq =>
    rw [← heq, hduty]
    exact ⟨f d, rfl, hchange heq⟩
  · exact ⟨d, hduty, .same⟩

theorem change_move {now : Nanoseconds} {s : Session} {number n : Nat} {coins : List Bool}
    {d d₀ : Duty} {r : Register} (hduty₀ : s.register.duty number = some d₀)
    (hactive : d₀.requester ≠ .retired) (hmove : Move s now number d₀ r)
    (hduty : s.register.duty n = some d) :
    ∃ d', r.duty n = some d' ∧ Change now s (.own (.request number coins)) n d d' := by
  by_cases heq : n = number
  · subst heq
    cases hduty₀.symm.trans hduty
    -- The entry of the requester itself.
    cases hmove with
    | onward r hretired hparting hclaiming =>
        exact change_modify hduty fun _ => .asked coins r false rfl hactive
          (fun hr => Or.inr (Or.inl (hretired hr))) hparting hclaiming
    | paused hchoosing hpaused hmissing =>
        exact change_modify hduty fun _ => .asked coins .retired false rfl hactive
          (fun _ => Or.inr (Or.inr (Or.inr ⟨hchoosing, hpaused⟩))) nofun nofun
    | refused parcel after hsending =>
        rw [Register.duty_modify, Register.duty_modify, if_pos rfl, if_pos rfl, hduty]
        exact ⟨_, rfl, .asked coins .retired true rfl hactive (fun _ => Or.inl rfl) nofun nofun⟩
    | parted told hparting =>
        have hfinal : d.requester.final = .parting := by
          rw [hparting]
          rfl
        refine ⟨_, ?_, .asked coins .retired told rfl hactive
          (fun _ => Or.inr (Or.inr (Or.inl hfinal))) nofun nofun⟩
        cases told with
        | false =>
            rw [if_neg Bool.false_ne_true, Register.duty_modify, if_pos rfl, hduty]
            rfl
        | true =>
            rw [if_pos rfl, Register.duty_modify, Register.duty_modify, if_pos rfl,
              if_pos rfl, hduty]
            rfl
    | claimed index reservations cursor hclaiming hreserve =>
        rw [Register.duty_modify, if_pos rfl]
        refine ⟨_, congrArg (Option.map _) hduty, .asked coins _ false rfl hactive ?_ ?_ ?_⟩ <;>
          exact nofun
  · -- Another one.
    have hother : ∀ (r : Register) (f : Duty → Duty), (r.modify number f).duty n = r.duty n :=
      fun r f => if_neg heq
    refine ⟨d, ?_, .same⟩
    rw [← hduty]
    cases hmove with
    | onward | paused => exact hother _ _
    | refused => exact (hother _ _).trans (hother _ _)
    | parted told =>
        split
        · exact (hother _ _).trans (hother _ _)
        · exact hother _ _
    | claimed => exact hother _ _

/-- No entry goes, and each changes as it can. -/
theorem change_of_shift {now : Nanoseconds} {s : Session} {event : Event} {r : Register} {n : Nat}
    {d : Duty} (h : Shift now s event r) (hduty : s.register.duty n = some d) :
    ∃ d', r.duty n = some d' ∧ Change now s event n d d' := by
  cases h with
  | quiet | finished | expired | pause | resume | swept => exact ⟨d, hduty, .same⟩
  | onward action number d₀ link hduty₀ hlink =>
      refine change_modify hduty fun heq => ?_
      rw [← heq] at hduty₀
      cases hduty₀.symm.trans hduty
      exact .onward link hlink
  | ended action number result => exact change_modify hduty fun _ => .ended result
  | told event number => exact change_modify hduty fun _ => .told
  | requested number coins d₀ r hduty₀ hrunning hactive hmove =>
      exact change_move hduty₀ hactive hmove hduty
  | closedOut number d₀ hduty₀ hended hopen =>
      rw [Register.duty_closeOut]
      refine change_modify hduty fun heq => ?_
      rw [← heq] at hduty₀
      cases hduty₀.symm.trans hduty
      exact .closedOut hended (by rw [heq])
  | joined number link address h buffer hfresh hother hfirst =>
      refine ⟨d, ?_, .same⟩
      have hne : n ≠ number := by
        rintro rfl
        rw [hfresh] at hduty
        cases hduty
      exact (if_neg hne).trans hduty
  | relinked number link => exact change_modify hduty fun heq => .relinked link (by rw [heq])
  | dropped =>
      rcases duty_foldl_tell s.register s.peers.values n with hsame | htold
      · exact ⟨d, hsame.trans hduty, .same⟩
      · exact ⟨d.tell, htold.trans (by rw [hduty]; rfl), .told⟩
  | shutdown => exact ⟨d.tell, congrArg (Option.map Duty.tell) hduty, .told⟩

theorem fresh_of_shift {now : Nanoseconds} {s : Session} {event : Event} {r : Register} {n : Nat}
    (h : Shift now s event r) (hfresh : s.register.duty n = none) :
    r.duty n = none ∨ ∃ link address handshake buffer,
      event = .connect n link address handshake buffer ∧ s.peers.get? handshake.peerId = none
        ∧ handshake.peerId ≠ s.ownId
        ∧ r.duty n = some ⟨⟨handshake.peerId, .running, s.cancelled⟩, link, .greeting, false⟩ := by
  have hmodify : ∀ (r : Register) (number : Nat) (f : Duty → Duty), r.duty n = none →
      (r.modify number f).duty n = none := by
    intro r number f hnone
    rw [Register.duty_modify]
    split
    · next heq => rw [← heq, hnone, Option.map_none]
    · exact hnone
  cases h with
  | joined number link address h buffer _ hother hfirst =>
      rw [Register.duty_enter]
      split
      · next heq => exact Or.inr ⟨link, address, h, buffer, by rw [heq], hfirst, hother, rfl⟩
      · exact Or.inl hfresh
  | quiet | finished | expired | pause | resume | swept => exact Or.inl hfresh
  | onward | ended | told | relinked => exact Or.inl (hmodify _ _ _ hfresh)
  | requested number coins d₀ r hduty₀ hrunning hactive hmove =>
      cases hmove with
      | onward | paused | claimed => exact Or.inl (hmodify _ _ _ hfresh)
      | refused => exact Or.inl (hmodify _ _ _ (hmodify _ _ _ hfresh))
      | parted told =>
          split
          · exact Or.inl (hmodify _ _ _ (hmodify _ _ _ hfresh))
          · exact Or.inl (hmodify _ _ _ hfresh)
  | closedOut =>
      rw [Register.duty_closeOut]
      exact Or.inl (hmodify _ _ _ hfresh)
  | dropped =>
      rcases duty_foldl_tell s.register s.peers.values n with hsame | htold
      · exact Or.inl (hsame.trans hfresh)
      · exact Or.inl (htold.trans (by rw [hfresh]; rfl))
  | shutdown => exact Or.inl (congrArg (Option.map Duty.tell) hfresh)

theorem constant_of_shift {now : Nanoseconds} {s : Session} {event : Event} {r : Register}
    (h : Shift now s event r) :
    r.infoHash = s.infoHash ∧ r.ownId = s.ownId
      ∧ (event ≠ .pause → s.paused = false → r.paused = false) := by
  have hsame : s.register.infoHash = s.infoHash ∧ s.register.ownId = s.ownId
      ∧ (event ≠ .pause → s.paused = false → s.register.paused = false) := ⟨rfl, rfl, fun _ h => h⟩
  cases h with
  | quiet | onward | ended | told | finished | expired | joined | relinked | swept | shutdown =>
      exact hsame
  | pause => exact ⟨rfl, rfl, fun hpause => absurd rfl hpause⟩
  | resume => exact ⟨rfl, rfl, fun _ _ => rfl⟩
  | requested number coins d r hduty hrunning hactive hmove =>
      cases hmove with
      | parted told => split <;> exact hsame
      | _ => exact hsame
  | closedOut number d =>
      obtain ⟨reservations, owners, heq⟩ := s.register.closeOut_eq number d.fate.peerId
      rw [heq]
      exact hsame
  | dropped =>
      obtain ⟨duty, heq⟩ := foldl_tell_eq s.register s.peers.values
      rw [heq]
      exact hsame

theorem cancelled_eq_of_shift {now : Nanoseconds} {s : Session} {event : Event} {r : Register}
    (h : Shift now s event r) :
    r.cancelled = s.cancelled ∨ (event = .shutdown ∧ r.cancelled = true) := by
  cases h with
  | shutdown => exact Or.inr ⟨rfl, rfl⟩
  | requested number coins d r hduty hrunning hactive hmove =>
      cases hmove with
      | parted told => split <;> exact Or.inl rfl
      | _ => exact Or.inl rfl
  | closedOut number d =>
      obtain ⟨reservations, owners, heq⟩ := s.register.closeOut_eq number d.fate.peerId
      rw [heq]
      exact Or.inl rfl
  | dropped =>
      obtain ⟨duty, heq⟩ := foldl_tell_eq s.register s.peers.values
      rw [heq]
      exact Or.inl rfl
  | _ => exact Or.inl rfl

theorem cancelled_of_shift {now : Nanoseconds} {s : Session} {event : Event} {r : Register}
    (h : Shift now s event r) (hcancelled : s.cancelled = true) : r.cancelled = true := by
  rcases cancelled_eq_of_shift h with hsame | ⟨_, hshut⟩
  · rw [hsame, hcancelled]
  · exact hshut

/-- The current connections were current before, or have just come. -/
theorem peers_of_shift {now : Nanoseconds} {s : Session} {event : Event} {r : Register}
    {peerId : Identifier} {number : Nat} (h : Shift now s event r)
    (hentry : (peerId, number) ∈ r.peers.entries) :
    (peerId, number) ∈ s.peers.entries
      ∨ (s.register.duty number = none ∧ ∃ link address handshake buffer,
        event = .connect number link address handshake buffer ∧ peerId = handshake.peerId) := by
  have hnone : (peerId, number) ∉ (Table.empty : Table Identifier Nat).entries := List.not_mem_nil
  cases h with
  | dropped | shutdown => exact absurd hentry hnone
  | joined number' link address h buffer hfresh hother hfirst =>
      rcases Table.mem_insert hentry with heq | hold
      · cases heq
        exact Or.inr ⟨hfresh, link, address, h, buffer, rfl, rfl⟩
      · exact Or.inl hold
  | swept => exact Or.inl (List.mem_filter.mp hentry).1
  | closedOut number' d hduty hended hopen =>
      rw [Register.peers_closeOut] at hentry
      split at hentry
      · exact Or.inl (List.mem_filter.mp hentry).1
      · exact Or.inl hentry
  | requested number' coins d₀ r hduty₀ hrunning hactive hmove =>
      cases hmove with
      | onward | paused | refused | claimed => exact Or.inl hentry
      | parted told =>
          split at hentry <;> exact Or.inl hentry
  | _ => exact Or.inl hentry

/-- The owner of a piece was its owner before, or its requester has just reserved the piece. -/
theorem owners_of_shift {now : Nanoseconds} {s : Session} {event : Event} {r : Register}
    {index : Nat} {owner : Identifier} (h : Shift now s event r)
    (hget : r.owners.get? index = some owner) :
    s.owners.get? index = some owner ∨ ∃ number coins d,
      event = .own (.request number coins) ∧ s.register.duty number = some d
        ∧ d.requester = .claiming index
        ∧ s.reservations.reserve? now index (s.policy.ttl s.owned.ratio) = some r.reservations := by
  cases h with
  | requested number coins d r hduty hrunning hactive hmove =>
      cases hmove with
      | claimed index' reservations cursor hclaiming hreserve =>
          have hafter : (s.owners.insert index' d.fate.peerId).get? index = some owner := hget
          rw [Table.get?_insert] at hafter
          split at hafter
          · next heq =>
            subst heq
            exact Or.inr ⟨number, coins, d, rfl, hduty, hclaiming, hreserve⟩
          · exact Or.inl hafter
      | parted told =>
          split at hget <;> exact Or.inl hget
      | _ => exact Or.inl hget
  | closedOut => exact Or.inl (Register.get?_of_releaseAll hget)
  | finished piece =>
      have hafter : (s.register.releaseAll [piece.piece]).owners.get? index = some owner := hget
      exact Or.inl (Register.get?_of_releaseAll hafter)
  | dropped =>
      obtain ⟨duty, heq⟩ := foldl_tell_eq s.register s.peers.values
      rw [heq] at hget
      exact Or.inl hget
  | _ => exact Or.inl hget

end Session

end TorrentCore
