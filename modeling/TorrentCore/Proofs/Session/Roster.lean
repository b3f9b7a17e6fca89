import TorrentCore.Proofs.Session.Listing
import TorrentCore.Proofs.Session.Tenure

/-!
# The peers of a session

A session lists each peer with the first of its connections, and never itself. The entry stays as
long as that connection goes on and was not told to end: a second connection is refused, and when an
older one is closed out only its own entry is looked for.
-/

namespace TorrentCore

def Duty.isLeaving (d : Duty) : Bool := d.hasEnded || d.fate.cancelled

namespace Register

/-- Nobody is listed under our own identifier, and everybody is listed with a connection of its own.
Only a connection that has ended was closed out. -/
structure Roster (r : Register) : Prop where
  entry : ∀ peerId number, (peerId, number) ∈ r.peers.entries →
    peerId ≠ r.ownId ∧ ∃ d, r.duty number = some d ∧ d.fate.peerId = peerId
  hasEnded : ∀ number d, r.duty number = some d → d.closedOut = true → d.hasEnded = true

/-- The peer has this connection, and is listed with it unless that is leaving. -/
def Retains (r : Register) (peerId : Identifier) (number : Nat) : Prop :=
  ∃ d, r.duty number = some d ∧ d.fate.peerId = peerId
    ∧ (d.isLeaving = false → r.peers.get? peerId = some number)

variable {r : Register} {peerId : Identifier} {number : Nat}

theorem Roster.retains (h : r.Roster) (hlisted : r.peers.get? peerId = some number) :
    r.Retains peerId number := by
  obtain ⟨_, d, hduty, hpeer⟩ := h.entry peerId number (Table.mem_of_get? hlisted)
  exact ⟨d, hduty, hpeer, fun _ => hlisted⟩

theorem Roster.get?_ownId (h : r.Roster) : r.peers.get? r.ownId = none := by
  by_contra hsome
  obtain ⟨number, hlisted⟩ := Option.ne_none_iff_exists'.mp hsome
  exact (h.entry r.ownId number (Table.mem_of_get? hlisted)).1 rfl

theorem Roster.get?_closeOut (h : r.Roster) {d : Duty} (hduty : r.duty number = some d)
    (peerId : Identifier) : (r.closeOut number d.fate.peerId).peers.get? peerId
      = (r.peers.get? peerId).filter (· != number) := by
  -- Whoever is listed with this connection is its peer.
  have hself : r.peers.get? peerId = some number → d.fate.peerId = peerId := by
    intro hlisted
    obtain ⟨d', hduty', hpeer, _⟩ := h.retains hlisted
    cases hduty.symm.trans hduty'
    exact hpeer
  have hother : r.peers.get? peerId ≠ some number →
      (r.peers.get? peerId).filter (· != number) = r.peers.get? peerId := by
    intro hne
    cases hget : r.peers.get? peerId with
    | none => rfl
    | some n =>
        have hn : n ≠ number := fun heq => hne (heq ▸ hget)
        exact Option.filter_some_pos (bne_iff_ne.mpr hn)
  rw [peers_closeOut]
  by_cases hlisted : r.peers.get? peerId = some number
  · have hgone : (some number).filter (· != number) = none := by
      rw [Option.filter_some, if_neg fun h => bne_iff_ne.mp h rfl]
    rw [hself hlisted, if_pos hlisted, Table.get?_erase_self, hlisted, hgone]
  · rw [hother hlisted]
    split
    · next herase =>
      rw [Table.get?_erase]
      split
      · next heq => exact absurd (heq ▸ herase) hlisted
      · rfl
    · rfl

end Register

namespace Session

variable {now : Nanoseconds} {s s' : Session} {event : Event} {number : Nat} {peerId : Identifier}

theorem roster_happen (h : s.register.Roster) (hstep : s.happen? now event = some s') :
    s'.register.Roster := by
  have hshift := shift_of_happen hstep
  refine ⟨fun peerId number hentry => ?_, hasEnded_happen h.hasEnded hstep⟩
  rw [(constant_of_shift hshift).2.1]
  rcases peers_of_shift hshift hentry with hold | ⟨_, link, address, handshake, buffer, rfl, rfl⟩
  · obtain ⟨hother, d, hduty, hpeer⟩ := h.entry peerId number hold
    obtain ⟨d', hduty', hchange⟩ := change_of_shift hshift hduty
    exact ⟨hother, d', hduty', hchange.peerId_eq.trans hpeer⟩
  · obtain ⟨_, hother, _, hregister⟩ := register_connect hstep
    have hentered := Register.duty_enter s.register number number
      ⟨⟨handshake.peerId, .running, s.cancelled⟩, link, .greeting, false⟩
    rw [← hregister, if_pos rfl] at hentered
    exact ⟨hother, _, hentered, rfl⟩

theorem Change.isLeaving {d d' : Duty} (h : Change now s event number d d')
    (hleaving : d.isLeaving = true) : d'.isLeaving = true := by
  cases h with
  | ended => rfl
  | told => exact Bool.or_true _
  | asked coins r refused =>
      cases refused with
      | true => exact Bool.or_true _
      | false => exact hleaving
  | _ => exact hleaving

/-- The first connection of a peer stays listed, whatever happens, as long as it is not leaving. -/
theorem retains_happen (h : s.register.Roster) (hretains : s.register.Retains peerId number)
    (hstep : s.happen? now event = some s') : s'.register.Retains peerId number := by
  obtain ⟨d, hduty, rfl, hlisted⟩ := hretains
  have hshift := shift_of_happen hstep
  obtain ⟨d', hduty', hchange⟩ := change_of_shift hshift hduty
  refine ⟨d', hduty', hchange.peerId_eq, fun hstays => ?_⟩
  have hbefore : d.isLeaving = false := Bool.eq_false_iff.mpr fun hleaving =>
    Bool.eq_false_iff.mp hstays (hchange.isLeaving hleaving)
  have hgoesOn : d.hasEnded = false := (Bool.or_eq_false_iff.mp hbefore).1
  have hopen : d.closedOut = false := Bool.eq_false_iff.mpr fun hout =>
    Bool.eq_false_iff.mp hgoesOn (h.hasEnded number d hduty hout)
  exact listed_of_shift hshift hduty hopen hgoesOn (hlisted hbefore) hduty'
    (Bool.or_eq_false_iff.mp hstays).2

theorem happen?_connect {link : Link} {address : Address} {handshake : Handshake}
    {buffer : ReadBuffer} (hnew : s.members.get? number = none)
    (hadd : s.addPeer now number link address handshake buffer = .ok s') :
    s.happen? now (.connect number link address handshake buffer) = some s' := by
  rw [happen?, hnew, hadd]
  rfl

theorem addPeer_eq_error {link : Link} {address : Address} {handshake : Handshake}
    {buffer : ReadBuffer} (hrefused : handshake.peerId = s.ownId
      ∨ (s.peers.get? handshake.peerId).isSome = true) :
    ∃ e, s.addPeer now number link address handshake buffer = .error e := by
  unfold addPeer
  split
  · exact ⟨_, rfl⟩
  · next hother => exact ⟨_, if_pos (hrefused.resolve_left hother)⟩

theorem exists_addPeer {link : Link} {address : Address} {handshake : Handshake}
    {buffer : ReadBuffer} (hother : handshake.peerId ≠ s.ownId)
    (hfirst : s.peers.get? handshake.peerId = none) :
    ∃ s', s.addPeer now number link address handshake buffer = .ok s'
      ∧ s'.peers = s.peers.insert handshake.peerId number
      ∧ ∀ n, n ≠ number → s'.members.get? n = s.members.get? n := by
  have hnew : s.peers.contains handshake.peerId = false := by rw [Table.contains, hfirst]; rfl
  rw [addPeer, if_neg hother, hnew]
  refine ⟨_, rfl, rfl, fun n hn => ?_⟩
  rw [Table.get?_insert_of_ne hn]

end Session

end TorrentCore
