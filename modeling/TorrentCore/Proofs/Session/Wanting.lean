import TorrentCore.Proofs.Session.Soliciting

/-!
# Picking and reserving

A requester picks a piece that is missing, but it reserves the piece only after it has told the peer
that it wants something, and that may have to wait for a place in the queue. Meanwhile the piece may
be verified, and the requester reserves it without looking again. So what is reserved was missing
when it was picked (`Pursues`), and it is still missing unless it was marked since then.
-/

namespace TorrentCore

theorem Reservations.isReserved_of_reserve?_ne {r r' : Reservations} {now ttl : Nanoseconds}
    {index other : Nat} (hwell : r.reserved.WellFormed) (h : r.reserve? now index ttl = some r')
    (hother : other ≠ index) : r'.isReserved other = r.isReserved other := by
  unfold reserve? at h
  split at h
  · next reserved hmark =>
    obtain ⟨hindex, hnew, rfl⟩ := Bitfield.mark_eq_ok_iff.mp hmark
    cases h
    show (r.reserved.insert index).contains other = r.reserved.contains other
    rw [Bitfield.contains_insert hwell hindex, decide_eq_false hother, Bool.or_false]
  · cases h

namespace Session

variable {start s s' : Session} {past : List (Nanoseconds × Event)} {now : Nanoseconds}
  {event : Event} {number index : Nat}

/-! ### Reserving -/

/-- What comes to be reserved is missing at that moment. -/
def ReservesMissing (s s' : Session) : Prop :=
  ∀ index, s.reservations.isReserved index = false → s'.reservations.isReserved index = true →
    s.owned.contains index = false

/-- A piece comes to be reserved only by a requester that is about to claim it. -/
theorem claiming_of_reserved {notes : Notes} (haccounted : Accounted s notes)
    (hstep : s.happen? now event = some s') (hfree : s.reservations.isReserved index = false)
    (hreserved : s'.reservations.isReserved index = true) : ∃ number coins m,
      event = .own (.request number coins) ∧ s.members.get? number = some m
        ∧ m.requester = .claiming index := by
  obtain ⟨m, hm, _⟩ := haccounted.represents
  obtain ⟨m', hturnover⟩ := turnover_of_shift (shift_of_happen hstep) hm haccounted.nodup
  have hbefore := (hm.isReserved_eq index).symm.trans hfree
  have hafter := (hturnover.represents.isReserved_eq index).symm.trans hreserved
  cases hturnover.fares index with
  | kept hdeadline _ =>
      rw [hdeadline] at hafter
      cases hbefore.symm.trans hafter
  | expired _ hdeadline _ | closedOut _ _ _ _ _ hdeadline _ | finished _ _ _ _ _ hdeadline =>
      rw [hdeadline] at hafter
      cases hafter
  | claimed number coins _ hevent =>
      subst hevent
      obtain ⟨d, hduty, _, _, hmove⟩ := move_request hstep
      obtain ⟨member, hmember, rfl⟩ := member_of_duty hduty
      have hreserved' : s'.register.reservations.isReserved index = true := hreserved
      refine ⟨number, coins, member, rfl, hmember, ?_⟩
      generalize s'.register = r at hmove hreserved'
      cases hmove with
      | onward | paused | refused => cases hfree.symm.trans hreserved'
      | parted told => split at hreserved' <;> cases hfree.symm.trans hreserved'
      | claimed index' reservations cursor hclaiming hreserve =>
          by_cases heq : index = index'
          · exact heq ▸ hclaiming
          · have hsame := Reservations.isReserved_of_reserve?_ne hm.wellFormed hreserve heq
            cases (hsame.trans hfree).symm.trans hreserved'

/-! ### Picking -/

theorem missing_of_picks (hfits : s.Fits) (h : s.Picks number index) :
    s.owned.contains index = false := by
  obtain ⟨m, _, hcandidate⟩ := candidate_of_picks h
  have hlt : index < s.owned.pieceCount := hfits.pieceCount_eq ▸ hcandidate.lt
  exact (Bitfield.contains_eq_has hlt).trans hcandidate.missing

/-- With the first of these events a requester picked a piece that was missing, and it has been
about to claim that piece ever since. -/
structure Pursues (start : Session) (before since : List (Nanoseconds × Event))
    (number index : Nat) : Prop where
  picked : ∃ now coins rest s, since = (now, .own (.request number coins)) :: rest
    ∧ run? before start = some s ∧ s.Picks number index ∧ s.owned.contains index = false
  claiming : ∀ early late s, since = early ++ late → early ≠ [] →
    run? (before ++ early) start = some s →
      ∃ m, s.members.get? number = some m ∧ m.requester.final = .claiming index

theorem Pursues.next {before since : List (Nanoseconds × Event)}
    (h : Pursues start before since number index) {entry : Nanoseconds × Event}
    (hrun : run? (before ++ (since ++ [entry])) start = some s)
    (hafter : ∃ m, s.members.get? number = some m ∧ m.requester.final = .claiming index) :
    Pursues start before (since ++ [entry]) number index := by
  refine ⟨?_, fun early late mid hsplit hnonempty hmid => ?_⟩
  · obtain ⟨now, coins, rest, picked, rfl, hpicked⟩ := h.picked
    exact ⟨now, coins, rest ++ [entry], picked, rfl, hpicked⟩
  · rcases List.eq_nil_or_concat late with rfl | ⟨late, last, rfl⟩
    · rw [List.append_nil] at hsplit
      cases hsplit
      cases hmid.symm.trans hrun
      exact hafter
    · rw [List.concat_eq_append, ← List.append_assoc] at hsplit
      exact h.claiming early late mid (List.append_inj_left' hsplit rfl) hnonempty hmid

def AllPursue (start : Session) (past : List (Nanoseconds × Event)) (s : Session) : Prop :=
  ∀ number d index, s.register.duty number = some d → d.requester.final = .claiming index →
    ∃ before since, past = before ++ since ∧ Pursues start before since number index

theorem allPursue_happen (hpast : run? past start = some s) (hfits : s.Fits)
    (hpursue : AllPursue start past s) (h : s.happen? now event = some s') :
    AllPursue start (past ++ [(now, event)]) s' := by
  intro number d' index hduty' hfinal
  have hshift := shift_of_happen h
  have hrun := run?_append_singleton hpast h
  obtain ⟨m', hm', hd'⟩ := member_of_duty hduty'
  have hafter : ∃ m, s'.members.get? number = some m ∧ m.requester.final = .claiming index :=
    ⟨m', hm', (congrArg (fun d : Duty => d.requester.final) hd').trans hfinal⟩
  have hold : ∀ d, s.register.duty number = some d → d.requester.final = .claiming index →
      ∃ before since, past ++ [(now, event)] = before ++ since
        ∧ Pursues start before since number index := by
    intro d hduty hd
    obtain ⟨before, since, rfl, hpursues⟩ := hpursue number d index hduty hd
    rw [List.append_assoc] at hrun ⊢
    exact ⟨before, since ++ [(now, event)], rfl, hpursues.next hrun hafter⟩
  cases hduty : s.register.duty number with
  | none =>
      rcases fresh_of_shift hshift hduty with hnone | ⟨_, _, _, _, _, _, _, hnew⟩
      · cases hnone.symm.trans hduty'
      · cases hnew.symm.trans hduty'
        cases hfinal
  | some d =>
      obtain ⟨d₀, hd₀, hchange⟩ := change_of_shift hshift hduty
      cases hd₀.symm.trans hduty'
      cases hchange with
      | same | onward | ended | told | relinked => exact hold _ hduty hfinal
      | closedOut => cases hfinal
      | asked coins r refused hevent _ _ _ hclaiming =>
          have hr : r.final = .claiming index := by
            cases refused <;> exact hfinal
          rcases hclaiming index hr with hbefore | hpicks
          · exact hold d hduty hbefore
          · -- It has just picked the piece.
            refine ⟨past, [(now, event)], rfl, ?_, fun early late mid hsplit hnonempty hmid => ?_⟩
            · exact ⟨now, coins, [], s, by rw [hevent], hpast, hpicks,
                missing_of_picks hfits hpicks⟩
            · obtain ⟨rfl, rfl⟩ : early = [(now, event)] ∧ late = [] :=
                (List.append_eq_singleton_iff.mp hsplit.symm).resolve_left fun h =>
                  hnonempty h.1
              cases hmid.symm.trans hrun
              exact hafter

/-! ### Marking -/

/-- A piece is marked with one of these events. -/
def MarkedIn (start : Session) (before since : List (Nanoseconds × Event)) (index : Nat) : Prop :=
  ∃ early now late s s', since = early ++ (now, .own .finishPiece) :: late
    ∧ run? (before ++ early) start = some s ∧ s.finishPiece? = some s'
    ∧ s.owned.contains index = false ∧ s'.owned.contains index = true

theorem finishes_of_gained (hstep : s.happen? now event = some s')
    (hbefore : s.owned.contains index = false) (hafter : s'.owned.contains index = true) :
    event = .own .finishPiece := by
  by_contra hother
  rw [owned_eq_of_happen hstep hother, hbefore] at hafter
  cases hafter

theorem contains_iff_markedIn {before since : List (Nanoseconds × Event)} {mid : Session}
    (hfits : mid.Fits) (hbefore : run? before start = some mid) (hsince : run? since mid = some s)
    (hmissing : mid.owned.contains index = false) :
    s.owned.contains index = true ↔ MarkedIn start before since index := by
  constructor
  · intro howned
    refine (run_history (Q := fun past s => s.Fits ∧ (s.owned.contains index = true →
      MarkedIn start before past index)) ⟨hfits, fun h => ?_⟩ ?_ hsince).2 howned
    · cases hmissing.symm.trans h
    · rintro past now r event r' hpast ⟨hr, hmarked⟩ hstep
      refine ⟨(gains_happen hstep).fits hr, fun hafter => ?_⟩
      cases hcontains : r.owned.contains index with
      | true =>
          obtain ⟨early, time, late, r₀, r₁, rfl, hrest⟩ := hmarked hcontains
          exact ⟨early, time, late ++ [(now, event)], r₀, r₁, by simp, hrest⟩
      | false =>
          obtain rfl := finishes_of_gained hstep hcontains hafter
          refine ⟨past, now, [], r, r', rfl, ?_, hstep, hcontains, hafter⟩
          rw [run?_append, hbefore]
          exact hpast
  · rintro ⟨early, time, late, r, r', rfl, hearly, hfinish, _, hmarked⟩
    rw [run?_append, hbefore, Option.bind_some] at hearly
    rw [run?_append, hearly, Option.bind_some] at hsince
    obtain ⟨next, hnext, hlate⟩ := Option.bind_eq_some_iff.mp hsince
    cases hfinish.symm.trans hnext
    exact contains_run ((gains_happen hnext).fits (fits_run hfits hearly)) hlate hmarked

/-! ### Runs -/

/-- In every run, whoever reserves a piece has picked it when it was missing and has been about to
claim it since then. The piece is still missing, unless it was marked after it was picked. -/
theorem reserved_isPursued {ownId : Identifier} {t : TorrentSource}
    {connectionOptions : ConnectionOptions} {policy : ReservationPolicy}
    {events : List (Nanoseconds × Event)} (hstart : Starts ownId t connectionOptions policy start)
    (hrun : run? events start = some s) (hstep : s.happen? now event = some s')
    (hfree : s.reservations.isReserved index = false)
    (hreserved : s'.reservations.isReserved index = true) :
    ∃ number coins before since, event = .own (.request number coins) ∧ events = before ++ since
      ∧ Pursues start before since number index
      ∧ (s.owned.contains index = true ↔ MarkedIn start before since index) := by
  have hfitsStart := (begins_of_starts hstart).1
  have hfits : ∀ {past r}, run? past start = some r → r.Fits := fun hpast =>
    fits_run hfitsStart hpast
  have haccounted := takeNotes_invariant accounted_happen (accounted_of_starts hstart) hrun
  obtain ⟨number, coins, m, rfl, hm, hclaiming⟩ :=
    claiming_of_reserved haccounted hstep hfree hreserved
  have hpursue : AllPursue start events s := by
    refine run_history (Q := AllPursue start) (fun number d index hduty => ?_)
      (fun hpast hq hstep => allPursue_happen hpast (hfits hpast) hq hstep) hrun
    rw [(begins_of_starts hstart).2.2] at hduty
    cases hduty
  have hfinal : m.requester.final = .claiming index := by
    rw [hclaiming]
    rfl
  obtain ⟨before, since, rfl, hpursues⟩ := hpursue number (duty m) index (duty_of_member hm) hfinal
  refine ⟨number, coins, before, since, rfl, rfl, hpursues, ?_⟩
  obtain ⟨time, _, rest, picked, rfl, hbefore, _, hmissing⟩ := hpursues.picked
  rw [run?_append, hbefore, Option.bind_some] at hrun
  exact contains_iff_markedIn (hfits hbefore) hbefore hrun hmissing

/-- Two peers offer the missing piece, and both requesters pick it. There is room for one packet in
the queue of each connection, so the second has to wait until it can send that it wants something.
Meanwhile the piece comes from the first peer. -/
def waitsForRoom : List (Nanoseconds × Event) :=
  let request (number : Nat) : Event := .own (.request number [])
  let receive (number : Nat) : Event := .own (.receive number)
  let transmit (number : Nat) : Event := .own (.transmit number)
  ([joins 0 [.bitfield [0x80], .unchoke, .piece 0 0 [10], .piece 0 1 [11]],
      joins 1 [.bitfield [0x80], .unchoke]]
    ++ [0, 1].flatMap (fun n => [request n, request n, transmit n, request n, request n,
      receive n, receive n, receive n, receive n, request n, request n])
    ++ [transmit 0, transmit 0, transmit 0, request 0, request 0, receive 0, receive 0, receive 0,
      receive 0, .own .consume, .own .consume, .own .finishPiece,
      transmit 1, transmit 1, transmit 1, request 1]).map fun event => (0, event)

def asksAnyway : List (Nanoseconds × Event) :=
  ([.own (.request 1 []), .own (.transmit 1), .own (.transmit 1), .own (.transmit 1),
    .own (.request 1 [])] : List Event).map fun event => (0, event)

theorem run_waitsForRoom : ∃ start s s' later m,
    Starts .zero twoPieces { queueLength := 1 } {} start ∧ run? waitsForRoom start = some s
    ∧ s.happen? 0 (.own (.request 1 [])) = some s' ∧ run? asksAnyway s' = some later
    ∧ later.members.get? 1 = some m ∧ s.reservations.isReserved 0 = false
    ∧ s'.reservations.isReserved 0 = true ∧ s.owned.contains 0 = true
    ∧ m.connection.queue.items.map Buffer.bytes = [Message.encode (.request ⟨0, 0, 1⟩)] := by
  have hdone : (start? .zero twoPieces { queueLength := 1 } {}).any (fun start =>
      (run? waitsForRoom start).any fun s => (s.happen? 0 (.own (.request 1 []))).any fun s' =>
        (run? asksAnyway s').any fun later => (later.members.get? 1).any fun m =>
          decide (s.reservations.isReserved 0 = false ∧ s'.reservations.isReserved 0 = true
            ∧ s.owned.contains 0 = true
            ∧ m.connection.queue.items.map Buffer.bytes
              = [Message.encode (.request ⟨0, 0, 1⟩)])) = true := by
    decide +kernel
  obtain ⟨start, hstart, hdone⟩ := (Option.any_eq_true _ _).mp hdone
  obtain ⟨s, hrun, hdone⟩ := (Option.any_eq_true _ _).mp hdone
  obtain ⟨s', hstep, hdone⟩ := (Option.any_eq_true _ _).mp hdone
  obtain ⟨later, hlater, hdone⟩ := (Option.any_eq_true _ _).mp hdone
  obtain ⟨m, hm, htest⟩ := (Option.any_eq_true _ _).mp hdone
  exact ⟨start, s, s', later, m, starts_of_start? hstart, hrun, hstep, hlater, hm,
    of_decide_eq_true htest⟩

/-- A piece that is owned is reserved, and then it is asked for. -/
theorem reservesMissing_fails : ∃ start s s' later m,
    Starts .zero twoPieces { queueLength := 1 } {} start ∧ run? waitsForRoom start = some s
    ∧ s.happen? 0 (.own (.request 1 [])) = some s' ∧ ¬ ReservesMissing s s'
    ∧ run? asksAnyway s' = some later ∧ later.members.get? 1 = some m
    ∧ m.connection.queue.items.map Buffer.bytes = [Message.encode (.request ⟨0, 0, 1⟩)] := by
  obtain ⟨start, s, s', later, m, hstart, hrun, hstep, hlater, hm, hfree, hreserved, howned, hasked⟩ :=
    run_waitsForRoom
  refine ⟨start, s, s', later, m, hstart, hrun, hstep, fun hmissing => ?_, hlater, hm, hasked⟩
  cases howned.symm.trans (hmissing 0 hfree hreserved)

/-- It was marked after it had been picked. -/
theorem reserved_isPursued_waitsForRoom : ∃ start s s' before since,
    Starts .zero twoPieces { queueLength := 1 } {} start ∧ run? waitsForRoom start = some s
    ∧ s.happen? 0 (.own (.request 1 [])) = some s' ∧ s.reservations.isReserved 0 = false
    ∧ s'.reservations.isReserved 0 = true ∧ waitsForRoom = before ++ since
    ∧ Pursues start before since 1 0 ∧ MarkedIn start before since 0 := by
  obtain ⟨start, s, s', _, _, hstart, hrun, hstep, _, _, hfree, hreserved, howned, _⟩ :=
    run_waitsForRoom
  obtain ⟨number, coins, before, since, hevent, hsplit, hpursues, hmarked⟩ :=
    reserved_isPursued hstart hrun hstep hfree hreserved
  cases hevent
  exact ⟨start, s, s', before, since, hstart, hrun, hstep, hfree, hreserved, hsplit, hpursues,
    hmarked.mp howned⟩

end Session

end TorrentCore
