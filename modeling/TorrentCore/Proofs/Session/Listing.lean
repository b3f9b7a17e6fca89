import TorrentCore.Proofs.Session.Shift

/-!
# The listed connection of a peer

A peer may have had several connections, but only one that was not closed out, and that is the one
which the session lists. So a peer can be taken again only after its last connection was closed out.
This holds of any numbers that are used for the connections of one peer, as long as nothing else is
connected under its identifier and the session does not forget its peers all at once.
-/

namespace TorrentCore

/-- These numbers are those of the connections of one peer. The one that was not closed out is the
one that is listed. -/
structure Register.Lists (r : Register) (peerId : Identifier) (numbers : Nat → Prop) : Prop where
  peerId_eq : ∀ n d, numbers n → r.duty n = some d → d.fate.peerId = peerId
  hasEnded : ∀ n d, numbers n → r.duty n = some d → d.closedOut = true → d.hasEnded = true
  listed : ∀ n, r.peers.get? peerId = some n →
    numbers n ∧ ∃ d, r.duty n = some d ∧ d.closedOut = false
  lists : ∀ n d, numbers n → r.duty n = some d → d.closedOut = false →
    r.peers.get? peerId = some n

namespace Register.Lists

variable {r r' : Register} {peerId : Identifier} {numbers : Nat → Prop}

theorem congr (h : r.Lists peerId numbers) (hduty : r'.duty = r.duty)
    (hpeers : r'.peers.get? peerId = r.peers.get? peerId) : r'.Lists peerId numbers := by
  refine ⟨?_, ?_, ?_, ?_⟩
  · rw [hduty]
    exact h.peerId_eq
  · rw [hduty]
    exact h.hasEnded
  · rw [hduty, hpeers]
    exact h.listed
  · rw [hduty, hpeers]
    exact h.lists

theorem modify (h : r.Lists peerId numbers) (number : Nat) {f : Duty → Duty}
    (hpeer : ∀ d, (f d).fate.peerId = d.fate.peerId) (hclosed : ∀ d, (f d).closedOut = d.closedOut)
    (hended : ∀ d, d.hasEnded = true → (f d).hasEnded = true) :
    (r.modify number f).Lists peerId numbers := by
  have hbefore : ∀ n d, (r.modify number f).duty n = some d →
      ∃ d', r.duty n = some d' ∧ (d = d' ∨ d = f d') := by
    intro n d hduty
    rw [duty_modify] at hduty
    split at hduty
    · next heq =>
      obtain ⟨d', hduty', rfl⟩ := Option.map_eq_some_iff.mp hduty
      exact ⟨d', heq ▸ hduty', Or.inr rfl⟩
    · exact ⟨d, hduty, Or.inl rfl⟩
  refine ⟨fun n d hn hduty => ?_, fun n d hn hduty hout => ?_, fun n hlisted => ?_,
    fun n d hn hduty hopen => ?_⟩
  · obtain ⟨d', hduty', rfl | rfl⟩ := hbefore n d hduty
    · exact h.peerId_eq n _ hn hduty'
    · exact (hpeer d').trans (h.peerId_eq n d' hn hduty')
  · obtain ⟨d', hduty', rfl | rfl⟩ := hbefore n d hduty
    · exact h.hasEnded n _ hn hduty' hout
    · exact hended d' (h.hasEnded n d' hn hduty' ((hclosed d').symm.trans hout))
  · obtain ⟨hn, d, hduty, hopen⟩ := h.listed n hlisted
    refine ⟨hn, ?_⟩
    rw [duty_modify]
    split
    · next heq =>
      rw [← heq, hduty]
      exact ⟨f d, rfl, (hclosed d).trans hopen⟩
    · exact ⟨d, hduty, hopen⟩
  · obtain ⟨d', hduty', rfl | rfl⟩ := hbefore n d hduty
    · exact h.lists n _ hn hduty' hopen
    · exact h.lists n d' hn hduty' ((hclosed d').symm.trans hopen)

theorem enter (h : r.Lists peerId numbers) {number : Nat} (hnumber : numbers number)
    (hnone : r.peers.get? peerId = none) {d : Duty} (hpeer : d.fate.peerId = peerId)
    (hopen : d.closedOut = false) : (r.enter number d).Lists peerId numbers := by
  have hlisted : (r.enter number d).peers.get? peerId = some number := by
    rw [Register.enter, hpeer, Table.get?_insert_self]
  refine ⟨fun n d' hn hduty => ?_, fun n d' hn hduty hout => ?_, fun n hn => ?_,
    fun n d' hn hduty hopen' => ?_⟩
  · rw [duty_enter] at hduty
    split at hduty
    · cases hduty
      exact hpeer
    · exact h.peerId_eq n d' hn hduty
  · rw [duty_enter] at hduty
    split at hduty
    · cases hduty
      exact Bool.noConfusion (hopen.symm.trans hout)
    · exact h.hasEnded n d' hn hduty hout
  · cases hlisted.symm.trans hn
    exact ⟨hnumber, d, (duty_enter r number number d).trans (if_pos rfl), hopen⟩
  · rw [duty_enter] at hduty
    split at hduty
    · next heq => rw [heq, hlisted]
    · exact absurd ((h.lists n d' hn hduty hopen').symm.trans hnone) nofun

theorem enter_other (h : r.Lists peerId numbers) {number : Nat} (hnumber : ¬ numbers number)
    {d : Duty} (hpeer : d.fate.peerId ≠ peerId) :
    (r.enter number d).Lists peerId numbers := by
  have hpeers : (r.enter number d).peers.get? peerId = r.peers.get? peerId := by
    rw [Register.enter, Table.get?_insert, if_neg hpeer.symm]
  have hduty : ∀ n, numbers n → (r.enter number d).duty n = r.duty n := fun n hn =>
    (duty_enter r number n d).trans (if_neg fun heq : n = number => hnumber (heq ▸ hn))
  refine ⟨fun n d' hn => ?_, fun n d' hn => ?_, fun n hlisted => ?_, fun n d' hn => ?_⟩
  · rw [hduty n hn]
    exact h.peerId_eq n d' hn
  · rw [hduty n hn]
    exact h.hasEnded n d' hn
  · rw [hpeers] at hlisted
    obtain ⟨hn, hd⟩ := h.listed n hlisted
    refine ⟨hn, ?_⟩
    rw [hduty n hn]
    exact hd
  · rw [hduty n hn, hpeers]
    exact h.lists n d' hn

theorem listed_closeOut (h : r.Lists peerId numbers) {number : Nat} {d : Duty}
    (hduty : r.duty number = some d) : (r.closeOut number d.fate.peerId).peers.get? peerId
      = if r.peers.get? peerId = some number then none else r.peers.get? peerId := by
  rw [peers_closeOut]
  by_cases hlisted : r.peers.get? peerId = some number
  · have hpeer : d.fate.peerId = peerId := h.peerId_eq number d (h.listed number hlisted).1 hduty
    rw [if_pos hlisted, hpeer, if_pos hlisted, Table.get?_erase_self]
  · rw [if_neg hlisted]
    split
    · next herase =>
      rw [Table.get?_erase]
      split
      · next heq => exact absurd (heq ▸ herase) hlisted
      · rfl
    · rfl

theorem closeOut (h : r.Lists peerId numbers) {number : Nat} {d : Duty}
    (hduty : r.duty number = some d) (hended : d.hasEnded = true) :
    (r.closeOut number d.fate.peerId).Lists peerId numbers := by
  have hlisted := h.listed_closeOut hduty
  have hafter : ∀ n, (r.closeOut number d.fate.peerId).duty n
      = if n = number then some { d with requester := .retired, closedOut := true }
        else r.duty n := by
    intro n
    rw [duty_closeOut, duty_modify, hduty, Option.map_some]
  refine ⟨fun n d' hn hd' => ?_, fun n d' hn hd' hout => ?_, fun n hn => ?_,
    fun n d' hn hd' hopen => ?_⟩
  · rw [hafter] at hd'
    split at hd'
    · next heq =>
      cases hd'
      exact h.peerId_eq n d hn (heq ▸ hduty)
    · exact h.peerId_eq n d' hn hd'
  · rw [hafter] at hd'
    split at hd'
    · cases hd'
      exact hended
    · exact h.hasEnded n d' hn hd' hout
  · rw [hlisted] at hn
    split at hn
    · cases hn
    · next hother =>
      obtain ⟨hnumber, d', hd', hopen⟩ := h.listed n hn
      refine ⟨hnumber, d', ?_, hopen⟩
      rw [hafter, if_neg fun heq : n = number => hother (heq ▸ hn), hd']
  · rw [hafter] at hd'
    split at hd'
    · cases hd'
      cases hopen
    · next hother =>
      have hn' := h.lists n d' hn hd' hopen
      rw [hlisted, hn']
      exact if_neg fun heq => hother (Option.some.inj heq)

end Register.Lists

namespace Session

variable {now : Nanoseconds} {s : Session} {event : Event} {r : Register} {peerId : Identifier}
  {numbers : Nat → Prop}

theorem lists_of_move {number : Nat} {d : Duty} (h : s.register.Lists peerId numbers)
    (hmove : Move s now number d r) : r.Lists peerId numbers := by
  have hassign : ∀ {r : Register} (next : Requester), r.Lists peerId numbers →
      (r.modify number (Duty.assign next)).Lists peerId numbers := fun next h =>
    h.modify number (fun _ => rfl) (fun _ => rfl) fun _ hended => hended
  have htell : ∀ {r : Register}, r.Lists peerId numbers →
      (r.modify number Duty.tell).Lists peerId numbers := fun h =>
    h.modify number (fun _ => rfl) (fun _ => rfl) fun _ hended => hended
  cases hmove with
  | onward next => exact hassign next h
  | paused => exact hassign .retired h
  | refused => exact htell (hassign .retired h)
  | parted told =>
      split
      · exact htell (hassign .retired h)
      · exact hassign .retired h
  | claimed index reservations cursor => exact hassign _ (h.congr rfl rfl)

/-- Of the events only those count that end all connections, or connect the same peer again. -/
theorem lists_of_shift (h : s.register.Lists peerId numbers) (hshift : Shift now s event r)
    (hdrop : event ≠ .dropAllPeers) (hshutdown : event ≠ .shutdown)
    (hconnect : ∀ number link address h buffer, event = .connect number link address h buffer →
      ¬ numbers number ∧ h.peerId ≠ peerId) : r.Lists peerId numbers := by
  cases hshift with
  | quiet => exact h
  | onward | relinked =>
      exact h.modify _ (fun _ => rfl) (fun _ => rfl) fun _ hended => hended
  | told => exact h.modify _ (fun _ => rfl) (fun _ => rfl) fun _ hended => hended
  | ended => exact h.modify _ (fun _ => rfl) (fun _ => rfl) fun _ _ => rfl
  | requested number coins d r hduty hrunning hactive hmove => exact lists_of_move h hmove
  | closedOut number d hduty hended hopen => exact h.closeOut hduty hended
  | finished | expired | pause | resume => exact h.congr rfl rfl
  | joined number link address h' buffer hfresh hother hfirst =>
      obtain ⟨hnumber, hpeer⟩ := hconnect _ _ _ _ _ rfl
      exact h.enter_other hnumber hpeer
  | dropped => exact absurd rfl hdrop
  | swept =>
      refine h.congr rfl ?_
      show (s.peers.filter _).get? peerId = s.peers.get? peerId
      cases hlisted : s.peers.get? peerId with
      | none => exact Table.get?_filter_of_none hlisted _
      | some n =>
          obtain ⟨_, d, hduty, hopen⟩ := h.listed n hlisted
          refine Table.get?_filter_of_some hlisted ?_
          rw [hduty, Option.any_some, hopen]
          rfl
  | shutdown => exact absurd rfl hshutdown

/-! ### Live connections -/

theorem duty_foldl_tell_of_mem (r : Register) {numbers : List Nat} {n : Nat} (hn : n ∈ numbers) :
    (numbers.foldl (fun r number => r.modify number Duty.tell) r).duty n
      = (r.duty n).map Duty.tell := by
  induction numbers generalizing r with
  | nil => cases hn
  | cons first numbers ih =>
      rw [List.foldl_cons]
      by_cases hrest : n ∈ numbers
      · rw [ih _ hrest, Register.duty_modify]
        split
        · next heq =>
          rw [heq, Option.map_map]
          rfl
        · rfl
      · obtain rfl := (List.mem_cons.mp hn).resolve_right hrest
        rcases duty_foldl_tell (r.modify n Duty.tell) numbers n with hsame | htold
        · rw [hsame, Register.duty_modify, if_pos rfl]
        · rw [htold, Register.duty_modify, if_pos rfl, Option.map_map]
          rfl

/-- A connection that is at work and was not told to end is the one that the session lists. -/
def ListsLive (r : Register) : Prop :=
  ∀ number d, r.duty number = some d → d.fate.status = .running → d.fate.cancelled = false →
    r.peers.get? d.fate.peerId = some number

theorem Change.live {number : Nat} {d d' : Duty} (h : Change now s event number d d')
    (hrunning : d'.fate.status = .running) (hlive : d'.fate.cancelled = false) :
    d.fate.status = .running ∧ d.fate.cancelled = false := by
  cases h with
  | ended => cases hrunning
  | told => cases hlive
  | asked coins r refused =>
      cases refused with
      | true => cases hlive
      | false => exact ⟨hrunning, hlive⟩
  | _ => exact ⟨hrunning, hlive⟩

theorem listed_of_shift {number : Nat} {d d' : Duty} (hshift : Shift now s event r)
    (hduty : s.register.duty number = some d) (hopen : d.closedOut = false)
    (hgoesOn : d.hasEnded = false) (hlisted : s.peers.get? d.fate.peerId = some number)
    (hduty' : r.duty number = some d') (hlive : d'.fate.cancelled = false) :
    r.peers.get? d.fate.peerId = some number := by
  cases hshift with
  | closedOut number₀ d₀ hduty₀ hended _ =>
      rw [Register.peers_closeOut]
      split
      · next hself =>
        rw [Table.get?_erase]
        split
        · next heq =>
          -- The connection that is closed out is this one.
          rw [heq] at hlisted
          cases hlisted.symm.trans hself
          cases hduty₀.symm.trans hduty
          cases hgoesOn.symm.trans hended
        · exact hlisted
      · exact hlisted
  | joined number₀ link address handshake buffer _ _ hfirst =>
      rw [Register.enter, Table.get?_insert]
      split
      · next heq => cases hfirst.symm.trans (heq ▸ hlisted)
      · exact hlisted
  | requested number₀ coins d₀ r hduty₀ hwas hactive hmove =>
      cases hmove with
      | parted told => split <;> exact hlisted
      | _ => exact hlisted
  | dropped =>
      have hmem : number ∈ s.peers.values :=
        List.mem_map.mpr ⟨_, Table.mem_of_get? hlisted, rfl⟩
      have htold := (duty_foldl_tell_of_mem s.register hmem).symm.trans hduty'
      rw [hduty, Option.map_some, Option.some.injEq] at htold
      rw [← htold] at hlive
      cases hlive
  | swept =>
      refine Table.get?_filter_of_some hlisted ?_
      rw [hduty, Option.any_some, hopen]
      rfl
  | shutdown =>
      cases (congrArg (Option.map Duty.tell) hduty).symm.trans hduty'
      cases hlive
  | _ => exact hlisted

theorem listsLive_happen {s' : Session} (h : ListsLive s.register)
    (hclosed : ∀ number d, s.register.duty number = some d → d.closedOut = true →
      d.hasEnded = true) (hstep : s.happen? now event = some s') : ListsLive s'.register := by
  have hshift := shift_of_happen hstep
  intro number d' hduty' hrunning hlive
  cases hduty : s.register.duty number with
  | none =>
      rcases fresh_of_shift hshift hduty with
        hnone | ⟨link, address, handshake, buffer, rfl, _, _, hnew⟩
      · cases hnone.symm.trans hduty'
      · obtain ⟨_, _, _, hregister⟩ := register_connect hstep
        cases hnew.symm.trans hduty'
        rw [hregister, Register.enter, Table.get?_insert_self]
  | some d =>
      obtain ⟨d₀, hduty₀, hchange⟩ := change_of_shift hshift hduty
      cases hduty₀.symm.trans hduty'
      obtain ⟨hwasRunning, hwasLive⟩ := hchange.live hrunning hlive
      have hgoesOn : d.hasEnded = false := by
        rw [Duty.hasEnded, hwasRunning]
      have hopen : d.closedOut = false := Bool.eq_false_iff.mpr fun hout =>
        Bool.eq_false_iff.mp hgoesOn (hclosed number d hduty hout)
      rw [hchange.peerId_eq]
      exact listed_of_shift hshift hduty hopen hgoesOn (h number d hduty hwasRunning hwasLive)
        hduty' hlive

end Session

end TorrentCore
