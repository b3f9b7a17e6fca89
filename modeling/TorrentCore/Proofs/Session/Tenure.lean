import TorrentCore.Proofs.Session.Claims

/-!
# Who holds a reservation

A reservation and the owner of its piece are kept apart: a requester makes both, the loop that ends
reservations forgets only the first, and a connection that is closed out releases what was last
asked from its peer, whichever of that peer's connections it was asked on. `Tenured` says what these
have in common: a reserved piece has an owner, and the owner has a connection that was not closed
out.
-/

namespace TorrentCore

namespace Register

variable {r : Register} {index : Nat}

theorem get?_releaseAll_of_mem {indices : List Nat} (hindex : index ∈ indices) :
    (r.releaseAll indices).owners.get? index = none := by
  induction indices generalizing r with
  | nil => exact absurd hindex List.not_mem_nil
  | cons first indices ih =>
      show ((r.release first).releaseAll indices).owners.get? index = none
      by_cases hrest : index ∈ indices
      · exact ih hrest
      · obtain rfl : index = first := (List.mem_cons.mp hindex).resolve_right hrest
        refine Option.eq_none_iff_forall_ne_some.mpr fun owner howner => ?_
        have hbefore := get?_of_releaseAll howner
        rw [release, Table.get?_erase_self] at hbefore
        cases hbefore

/-- When a connection has been closed out, its peer owns nothing any more. -/
theorem owner_ne_of_closeOut (hnodup : r.owners.keys.Nodup) {number : Nat} {peerId : Identifier} :
    (r.closeOut number peerId).owners.get? index ≠ some peerId := by
  intro howner
  have hbefore : r.owners.get? index = some peerId := by
    have hreleased := get?_of_releaseAll howner
    exact hreleased
  have hmem : index ∈ (r.owners.filter fun _ owner => owner == peerId).keys :=
    (Table.mem_keys_filter hnodup).mpr ⟨peerId, hbefore, beq_self_eq_true peerId⟩
  cases (get?_releaseAll_of_mem hmem).symm.trans howner

/-- The peer that a piece was last asked from has a connection that was not closed out. -/
def HasHolder (r : Register) (index : Nat) : Prop :=
  ∃ number d, r.duty number = some d ∧ d.closedOut = false
    ∧ r.owners.get? index = some d.fate.peerId

/-- What is reserved is held by a connection, and only a connection that has ended is closed out. -/
structure Tenured (r : Register) : Prop where
  hasEnded : ∀ number d, r.duty number = some d → d.closedOut = true → d.hasEnded = true
  holder : ∀ index, r.reservations.isReserved index = true → r.HasHolder index

end Register

namespace Session

variable {now : Nanoseconds} {s s' : Session} {event : Event}

theorem Change.closedOut_eq {number : Nat} {d d' : Duty} (h : Change now s event number d d')
    (hopen : d.closedOut = false) (hout : d'.closedOut = true) :
    event = .own (.closeOut number) := by
  cases h with
  | closedOut _ hevent => exact hevent
  | asked coins r refused => cases refused <;> cases hopen.symm.trans hout
  | _ => cases hopen.symm.trans hout

theorem Change.hasEnded {number : Nat} {d d' : Duty} (h : Change now s event number d d')
    (hbefore : d.closedOut = true → d.hasEnded = true) (hout : d'.closedOut = true) :
    d'.hasEnded = true := by
  cases h with
  | ended => rfl
  | closedOut hended => exact hended
  | asked coins r refused => cases refused <;> exact hbefore hout
  | _ => exact hbefore hout

theorem hasEnded_happen (h : ∀ number d, s.register.duty number = some d → d.closedOut = true →
    d.hasEnded = true) (hstep : s.happen? now event = some s') :
    ∀ number d, s'.register.duty number = some d → d.closedOut = true → d.hasEnded = true := by
  have hshift := shift_of_happen hstep
  intro number d' hduty' hout
  cases hduty : s.register.duty number with
  | none =>
      rcases fresh_of_shift hshift hduty with hnone | ⟨_, _, _, _, _, _, _, hnew⟩
      · cases hnone.symm.trans hduty'
      · cases hnew.symm.trans hduty'
        cases hout
  | some d =>
      obtain ⟨d₀, hduty₀, hchange⟩ := change_of_shift hshift hduty
      cases hduty₀.symm.trans hduty'
      exact hchange.hasEnded (h number d hduty) hout

/-- A holder stays one as long as the piece keeps its owner: who is closed out owns nothing. -/
theorem hasHolder_happen (hnodup : s.owners.keys.Nodup) (hstep : s.happen? now event = some s')
    {index : Nat} (h : s.register.HasHolder index)
    (howner : s'.owners.get? index = s.owners.get? index) : s'.register.HasHolder index := by
  obtain ⟨number, d, hduty, hopen, hd⟩ := h
  obtain ⟨d', hduty', hchange⟩ := change_of_shift (shift_of_happen hstep) hduty
  have hafter : s'.owners.get? index = some d'.fate.peerId := by
    rw [howner, hchange.peerId_eq]
    exact hd
  refine ⟨number, d', hduty', ?_, hafter⟩
  rw [Bool.eq_false_iff]
  intro hout
  obtain rfl := hchange.closedOut_eq hopen hout
  obtain ⟨d₀, hduty₀, _, _, hregister⟩ := register_closeOut hstep
  cases hduty₀.symm.trans hduty
  have hgone : s'.register.owners.get? index ≠ some d.fate.peerId := by
    rw [hregister]
    exact Register.owner_ne_of_closeOut hnodup
  exact hgone (howner.trans hd)

theorem tenured_happen {notes : Notes} (haccounted : Accounted s notes)
    (h : s.register.Tenured) (hstep : s.happen? now event = some s') : s'.register.Tenured := by
  have hshift := shift_of_happen hstep
  refine ⟨hasEnded_happen h.hasEnded hstep, fun index hreserved => ?_⟩
  obtain ⟨m, hm, _⟩ := haccounted.represents
  obtain ⟨m', hturnover⟩ := turnover_of_shift hshift hm haccounted.nodup
  have hlookup : (m'.lookup index).isSome = true :=
    (hturnover.represents.isReserved_eq index).symm.trans hreserved
  cases hturnover.fares index with
  | kept hdeadline howner =>
      rw [hdeadline, ← hm.isReserved_eq] at hlookup
      exact hasHolder_happen haccounted.nodup hstep (h.holder index hlookup) howner
  | claimed number coins d hevent hfree hdeadline hduty howner =>
      -- Who takes a turn is at work, so that it was not closed out.
      subst hevent
      obtain ⟨d₀, hduty₀, hrunning, _, _⟩ := move_request hstep
      cases hduty₀.symm.trans hduty
      obtain ⟨d', hduty', hchange⟩ := change_of_shift hshift hduty
      refine ⟨number, d', hduty', ?_, ?_⟩
      · rw [Bool.eq_false_iff]
        intro hout
        cases hclosed : d.closedOut with
        | false => cases hchange.closedOut_eq hclosed hout
        | true =>
            have hended := h.hasEnded number d hduty hclosed
            rw [Duty.hasEnded, hrunning] at hended
            cases hended
      · rw [hchange.peerId_eq]
        exact howner
  | expired _ hdeadline _ | closedOut _ _ _ _ _ hdeadline _ | finished _ _ _ _ _ hdeadline =>
      rw [hdeadline] at hlookup
      cases hlookup

theorem tenured_run {ownId : Identifier} {t : TorrentSource}
    {connectionOptions : ConnectionOptions} {policy : ReservationPolicy} {start : Session}
    {events : List (Nanoseconds × Event)} (hstart : Starts ownId t connectionOptions policy start)
    (hrun : run? events start = some s) : s.register.Tenured := by
  have haccounted := accounted_of_starts hstart
  refine (takeNotes_invariant (P := fun s notes => Accounted s notes ∧ s.register.Tenured)
    (fun h hstep => ⟨accounted_happen h.1 hstep, tenured_happen h.1 h.2 hstep⟩)
    ⟨haccounted, ?_⟩ hrun).2
  have hregister := (begins_of_starts hstart).2.2
  refine ⟨fun number d hduty => ?_, fun index hreserved => ?_⟩
  · rw [hregister] at hduty
    cases hduty
  · obtain ⟨m, hm, hclaims⟩ := haccounted.represents
    have hlookup := (hm.isReserved_eq index).symm.trans hreserved
    rw [hclaims] at hlookup
    cases hlookup

/-- In every session that can be reached, a reserved piece was last asked from a peer that has a
connection which was not closed out. So nothing is reserved once every connection was closed out. -/
theorem reserved_hasHolder {ownId : Identifier} {t : TorrentSource}
    {connectionOptions : ConnectionOptions} {policy : ReservationPolicy} {start s : Session}
    {events : List (Nanoseconds × Event)} (hstart : Starts ownId t connectionOptions policy start)
    (hrun : run? events start = some s) :
    (∀ index, s.reservations.isReserved index = true → ∃ peerId number m,
      s.owners.get? index = some peerId ∧ s.members.get? number = some m
        ∧ m.connection.peerId = peerId ∧ m.closedOut = false)
      ∧ ((∀ number m, s.members.get? number = some m → m.closedOut = true) →
        ∀ index, s.reservations.isReserved index = false) := by
  have hholder : ∀ index, s.reservations.isReserved index = true → ∃ peerId number m,
      s.owners.get? index = some peerId ∧ s.members.get? number = some m
        ∧ m.connection.peerId = peerId ∧ m.closedOut = false := by
    intro index hreserved
    obtain ⟨number, d, hduty, hopen, howner⟩ := (tenured_run hstart hrun).holder index hreserved
    obtain ⟨m, hm, rfl⟩ := member_of_duty hduty
    exact ⟨_, number, m, howner, hm, rfl, hopen⟩
  refine ⟨hholder, fun hall index => ?_⟩
  rw [Bool.eq_false_iff]
  intro hreserved
  obtain ⟨_, number, m, _, hm, _, hopen⟩ := hholder index hreserved
  cases hopen.symm.trans (hall number m hm)

/-- A peer that was asked for a piece goes away, and its connection is closed out at once. -/
def asksAndCloses : List (Nanoseconds × Event) :=
  let request : Event := .own (.request 0 [])
  let receive : Event := .own (.receive 0)
  ([joins 0 [.bitfield [0xc0], .unchoke], request, request, request, request, receive, receive,
    receive, receive, request, request, request, request, .disconnect 0, .own (.stop 0),
    .own (.closeOut 0)] : List Event).map fun event => (0, event)

/-- The piece is reserved until then, and not after that. -/
theorem reserved_hasHolder_asksAndCloses : ∃ start held s,
    Starts .zero twoPieces {} {} start ∧ run? (asksAndCloses.take 13) start = some held
    ∧ run? asksAndCloses start = some s ∧ held.reservations.isReserved 0 = true
    ∧ (∃ peerId number m, held.owners.get? 0 = some peerId ∧ held.members.get? number = some m
      ∧ m.connection.peerId = peerId ∧ m.closedOut = false)
    ∧ (∀ number m, s.members.get? number = some m → m.closedOut = true)
    ∧ ∀ index, s.reservations.isReserved index = false := by
  have hdone : (start? .zero twoPieces {} {}).any (fun start =>
      (run? (asksAndCloses.take 13) start).any fun held => (run? asksAndCloses start).any fun s =>
        decide (held.reservations.isReserved 0 = true
          ∧ ∀ entry ∈ s.members.entries, entry.2.closedOut = true)) = true := by
    decide +kernel
  obtain ⟨start, hstart, hdone⟩ := (Option.any_eq_true _ _).mp hdone
  obtain ⟨held, hheld, hdone⟩ := (Option.any_eq_true _ _).mp hdone
  obtain ⟨s, hrun, htest⟩ := (Option.any_eq_true _ _).mp hdone
  obtain ⟨hreserved, hclosed⟩ := of_decide_eq_true htest
  have hall : ∀ number m, s.members.get? number = some m → m.closedOut = true :=
    fun number m hm => hclosed (number, m) (Table.mem_of_get? hm)
  have hstart := starts_of_start? hstart
  exact ⟨start, held, s, hstart, hheld, hrun, hreserved,
    (reserved_hasHolder hstart hheld).1 0 hreserved, hall, (reserved_hasHolder hstart hrun).2 hall⟩

end Session

end TorrentCore
