import TorrentCore.Proofs.Connection.Sending

/-!
# How a connection goes on

To its session a connection is whose it is, whether it is at work, whether it was told to end, and
its link. A step of the connection leaves all of this alone, but for the bytes it reads off the link
and puts behind those on their way out, or it is the end of the connection, which hangs up the link.
Offering something to the queue does not show in any of it.
-/

namespace TorrentCore

structure Link.Onward (l l' : Link) : Prop where
  incoming_closed : l'.incoming.closed = l.incoming.closed
  outgoing_closed : l'.outgoing.closed = l.outgoing.closed
  written : l.outgoing.held <+: l'.outgoing.held

theorem Link.Onward.refl (l : Link) : l.Onward l := ⟨rfl, rfl, List.prefix_refl _⟩

theorem Link.onward_write {l : Link} {bytes left : Bytes} {outgoing : Pipe}
    (h : l.outgoing.write? bytes = some (left, outgoing)) :
    l.Onward { l with outgoing := outgoing } := by
  rw [Pipe.write?] at h
  split at h
  · cases h
  · cases h
    exact ⟨rfl, rfl, by rw [Pipe.held_append]; exact List.prefix_append _ _⟩

theorem Link.onward_read {l : Link} {room : Nat} {arrival : Arrival} {incoming : Pipe}
    (h : l.incoming.read? room = some (arrival, incoming)) :
    l.Onward { l with incoming := incoming } := by
  rw [Pipe.read?] at h
  split at h
  · split at h
    · cases h
      exact .refl l
    · cases h
  · cases h
    exact ⟨rfl, rfl, List.prefix_refl _⟩

/-- Whose a connection is, and whether it goes on. -/
structure Fate where
  peerId : Identifier
  status : RunStatus
  cancelled : Bool

namespace Connection

def fate (c : Connection) : Fate := ⟨c.peerId, c.status, c.cancelled⟩

theorem Flagged.fate_eq {c c' : Connection} (h : c.Flagged c') : c'.fate = c.fate := by
  cases h
  rfl

theorem status_of_isRunning {c : Connection} (h : c.isRunning = true) : c.status = .running := by
  unfold isRunning at h
  split at h
  · next hrunning => exact hrunning
  · cases h

end Connection

namespace Endpoint

open Connection

/-- What a step of a connection is for its session. -/
inductive Advances (e : Endpoint) : Endpoint → Prop
  | onward (e' : Endpoint) (hsame : e'.connection.fate = e.connection.fate)
      (hlink : e.link.Onward e'.link) : Advances e e'
  | ended (result : Except Error Unit) (e' : Endpoint)
      (hended : e'.connection.fate = ⟨e.connection.peerId, .ended result, true⟩)
      (hlink : e'.link = e.link.hangUp) : Advances e e'

theorem advances_finish (e : Endpoint) (result : Except Error Unit) :
    e.Advances (e.finish result) :=
  .ended result _ rfl rfl

theorem fate_apply {e e' : Endpoint} {now : Nanoseconds} {m : Message}
    (h : e.apply now m = .ok e') :
    e'.connection.fate = e.connection.fate ∧ e'.link = e.link := by
  cases m with
  | keepAlive | request _ | cancel _ | piece _ _ _ =>
      cases h
      exact ⟨rfl, rfl⟩
  | choke | unchoke =>
      cases h
      exact ⟨(flagged_setAmChoked _ _ _).fate_eq, rfl⟩
  | interested | notInterested =>
      cases h
      exact ⟨(flagged_setPeerInterested _ _ _).fate_eq, rfl⟩
  | has index =>
      cases h
      unfold applyHave
      split <;> exact ⟨rfl, rfl⟩
  | bitfield bits =>
      rw [apply, applyBitfield] at h
      split at h
      · cases h
        exact ⟨rfl, rfl⟩
      · cases h

theorem advances_receive {e e' : Endpoint} {now : Nanoseconds} (h : e.receive? now = some e') :
    e.Advances e' := by
  unfold receive? at h
  simp only at h
  split at h
  · cases h
  cases hphase : e.connection.reader with
  | decoding =>
      rw [hphase] at h
      simp only at h
      split at h
      · split at h
        · next e'' happly =>
          cases h
          obtain ⟨hfate, hlink⟩ := fate_apply happly
          exact .onward _ hfate (hlink ▸ .refl _)
        · cases h
          exact .ended _ _ rfl rfl
      · cases h
        exact advances_finish e _
      · cases h
        exact .onward _ rfl (.refl _)
  | reading deadline =>
      rw [hphase] at h
      simp only at h
      split at h
      · cases h
        exact advances_finish e _
      · cases h
        exact advances_finish e _
      · cases h
        exact advances_finish e _
      · next hread =>
        cases h
        exact .onward _ rfl (Link.onward_read hread)
      · split at h
        · cases h
          exact advances_finish e _
        · cases h
  | offeringBlock block | offeringUpload request =>
      rw [hphase] at h
      simp only at h
      split at h
      · cases h
        exact .onward _ rfl (.refl _)
      · cases h
      · cases h
        exact advances_finish e _

theorem advances_transmit {e e' : Endpoint} {now : Nanoseconds} (h : e.transmit? now = some e') :
    e.Advances e' := by
  unfold transmit? at h
  simp only at h
  split at h
  · cases h
  split at h
  · split at h
    · cases h
      exact .onward _ rfl (.refl _)
    · split at h
      · cases h
        exact .onward _ rfl (.refl _)
      · cases h
  · cases h
    exact .onward _ rfl (.refl _)
  · split at h
    · cases h
      exact advances_finish e _
    · next hwrite =>
      split at h
      · cases h
        exact .onward _ rfl (Link.onward_write hwrite)
      · split at h
        · cases h
          exact advances_finish e _
        · cases h

theorem advances_stop {e e' : Endpoint} (h : e.stop? = some e') : e.Advances e' := by
  unfold stop? at h
  split at h
  · cases h
    exact advances_finish e _
  · cases h

theorem fate_send_sent {e e' : Endpoint} {now : Nanoseconds} {late : Bool} {p : Parcel}
    (h : e.send now late p = .sent e') :
    e'.connection.fate = e.connection.fate ∧ e'.link = e.link := by
  obtain ⟨queue, -, rfl⟩ := send_eq_sent h
  exact ⟨(e.flagged_accept now p queue).fate_eq, rfl⟩

theorem fate_send_refused {e e' : Endpoint} {now : Nanoseconds} {late : Bool} {p : Parcel}
    {cause : Error} (h : e.send now late p = .refused cause e') :
    e'.connection = e.connection ∧ e'.link = e.link := by
  obtain ⟨rfl, -⟩ := send_eq_refused h
  exact ⟨rfl, rfl⟩

end Endpoint

end TorrentCore
