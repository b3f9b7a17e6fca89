import TorrentCore.Connection.Endpoint
import TorrentCore.Proofs.Connection.Flags

/-!
# What comes of sending

A parcel is accepted, which puts it behind those that wait and sets the flag that it speaks of. Or
it has to wait. Or it is given back, which happens to nobody whose connection is to last. What is
known of sending is said of these three here, and nobody else looks into `send`.
-/

namespace TorrentCore

namespace Endpoint

variable {e e' : Endpoint} {now : Nanoseconds} {late : Bool} {p : Parcel} {cause : Error}

/-- A packet was accepted by the queue, and what it says is noted. -/
def accept (e : Endpoint) (now : Nanoseconds) (p : Parcel) (queue : Channel Buffer) : Endpoint :=
  { e with connection := match p.message with
    | some m => Connection.noteSent { e.connection with queue := queue } now m
    | none => { e.connection with queue := queue } }

theorem flagged_accept (e : Endpoint) (now : Nanoseconds) (p : Parcel) (queue : Channel Buffer) :
    Connection.Flagged { e.connection with queue := queue } (e.accept now p queue).connection := by
  unfold accept
  cases p.message with
  | some m => exact Connection.flagged_noteSent _ now m
  | none => exact .set ..

theorem send_cases (e : Endpoint) (now : Nanoseconds) (late : Bool) (p : Parcel) :
    (∃ queue, (e.connection.cancelled = false ∨ late = true)
        ∧ e.connection.queue.offer p.packet = .accepted queue
        ∧ e.send now late p = .sent (e.accept now p queue))
      ∨ e.send now late p = .full
      ∨ ∃ cause, (e.connection.cancelled = true ∨ e.connection.queue.closed = true)
        ∧ e.send now late p = .refused cause { e with hub := e.hub.unpack p } := by
  unfold send
  split
  · next hnoticed =>
    exact .inr (.inr ⟨_, .inl (Bool.and_eq_true_iff.mp hnoticed).1, rfl⟩)
  next hunnoticed =>
  have hopen : e.connection.cancelled = false ∨ late = true := by
    revert hunnoticed
    cases e.connection.cancelled <;> cases late <;> decide
  split
  · next queue hoffer => exact .inl ⟨queue, hopen, hoffer, rfl⟩
  · split
    · next htold => exact .inr (.inr ⟨_, .inl htold, rfl⟩)
    · exact .inr (.inl rfl)
  · next hrefused => exact .inr (.inr ⟨_, .inr (Channel.offer_eq_refused_iff.mp hrefused), rfl⟩)

theorem send_eq_sent (h : e.send now late p = .sent e') :
    ∃ queue, e.connection.queue.offer p.packet = .accepted queue ∧ e' = e.accept now p queue := by
  rcases e.send_cases now late p with ⟨queue, -, hoffer, hsent⟩ | hfull | ⟨cause, -, hrefused⟩
  · exact ⟨queue, hoffer, Sending.sent.inj (h.symm.trans hsent)⟩
  · cases h.symm.trans hfull
  · cases h.symm.trans hrefused

/-- Who takes a parcel is not told to end, unless that is noticed late, and its queue is open. -/
theorem open_of_sent (h : e.send now late p = .sent e') :
    (e.connection.cancelled = false ∨ late = true) ∧ e.connection.queue.closed = false := by
  rcases e.send_cases now late p with ⟨queue, hkept, hoffer, -⟩ | hfull | ⟨cause, -, hrefused⟩
  · exact ⟨hkept, (Channel.offer_eq_accepted_iff.mp hoffer).1⟩
  · cases h.symm.trans hfull
  · cases h.symm.trans hrefused

/-- Only a connection that is over or about to be over refuses a parcel, and it stays as it is. -/
theorem send_eq_refused (h : e.send now late p = .refused cause e') :
    e' = { e with hub := e.hub.unpack p }
      ∧ (e.connection.cancelled = true ∨ e.connection.queue.closed = true) := by
  rcases e.send_cases now late p with ⟨queue, -, -, hsent⟩ | hfull | ⟨cause', hwhy, hrefused⟩
  · cases h.symm.trans hsent
  · cases h.symm.trans hfull
  · exact ⟨(Sending.refused.inj (h.symm.trans hrefused)).2, hwhy⟩

end Endpoint

end TorrentCore
