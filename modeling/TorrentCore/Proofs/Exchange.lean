import TorrentCore.Exchange
import TorrentCore.Proofs.Stream.Handshake

/-!
# The steps of an exchange

An exchange that is in time and not cut off does one of two things. It puts a first part of what it
has left to write onto its link, or it takes some bytes off the link. Neither loses a byte: what
waits in the buffer, what is on the link and what is still to come are together the handshake of the
other side and what follows it, until that handshake is read as a whole.
-/

namespace TorrentCore

namespace Exchange

variable {served : Identifier → Bool} {now : Nanoseconds} {x x' : Exchange} {l l' : Link}

theorem step?_writing {rest : Bytes} (hphase : x.phase = .writing rest)
    (hopen : l.outgoing.closed = false) (htime : now < x.deadline.ceilMilliseconds)
    (h : x.step? served now l = some (x', l')) :
    ∃ left outgoing, l' = { l with outgoing := outgoing } ∧ outgoing.closed = false
      ∧ outgoing.held ++ left = l.outgoing.held ++ rest
      ∧ ((left = [] ∧ x' = x.written now) ∨ (left ≠ [] ∧ x' = { x with phase := .writing left })) := by
  rw [step?] at h
  simp only [hphase, Pipe.write?, hopen, Bool.false_eq_true, if_false,
    if_neg (Nat.not_le.mpr htime)] at h
  refine ⟨rest.drop l.outgoing.room, l.outgoing.append (rest.take l.outgoing.room), ?_,
    hopen, ?_, ?_⟩
  · split at h
    · cases h
      rfl
    · split at h <;> cases h
      rfl
  · rw [Pipe.held_append, List.append_assoc, List.take_append_drop]
  · split at h
    · next hdone =>
      cases h
      exact Or.inl ⟨List.isEmpty_iff.mp hdone, rfl⟩
    · next hleft =>
      split at h <;> cases h
      exact Or.inr ⟨fun hnil => hleft (List.isEmpty_iff.mpr hnil), rfl⟩

theorem step?_reading (hphase : x.phase = .reading) (hroom : 0 < x.buffer.room)
    (htime : now < x.deadline.ceilMilliseconds)
    (hmore : l.incoming.closed = true → l.incoming.held ≠ [])
    (h : x.step? served now l = some (x', l')) :
    ∃ bytes incoming, bytes ≠ [] ∧ bytes.length ≤ x.buffer.room
      ∧ l' = { l with incoming := incoming } ∧ incoming.closed = l.incoming.closed
      ∧ bytes ++ incoming.held = l.incoming.held ∧ x' = receive served x now (.data bytes) := by
  rw [step?] at h
  simp only [hphase, if_neg (Nat.not_le.mpr htime)] at h
  rw [Pipe.read?] at h
  by_cases hempty : l.incoming.count = 0
  · have hheld : l.incoming.held = [] := by
      rw [← List.length_eq_zero_iff, Pipe.length_held, hempty]
    have hopen : ¬ l.incoming.closed = true := fun hclosed => hmore hclosed hheld
    rw [if_pos hempty, if_neg hopen] at h
    cases h
  · rw [if_neg hempty] at h
    cases h
    refine ⟨l.incoming.held.take x.buffer.room, l.incoming.drop x.buffer.room, ?_, ?_, rfl,
      rfl, ?_, rfl⟩
    · rw [← List.length_pos_iff, List.length_take, Pipe.length_held]
      omega
    · exact List.length_take_le _ _
    · rw [Pipe.held_drop, List.take_append_drop]

theorem step?_idle (hphase : x.phase = .reading) (htime : now < x.deadline.ceilMilliseconds)
    (hopen : l.incoming.closed = false) (hnone : l.incoming.held = []) :
    x.step? served now l = none := by
  have hempty : l.incoming.count = 0 := by
    rw [← Pipe.length_held, hnone, List.length_nil]
  rw [step?]
  simp only [hphase, if_neg (Nat.not_le.mpr htime)]
  rw [Pipe.read?, if_pos hempty, hopen]
  rfl

theorem receive_data {bytes : Bytes} (hbytes : bytes ≠ []) :
    receive served x now (.data bytes)
      = match (x.buffer.receive bytes).handshake with
        | .item h rest => received served { x with buffer := rest } now h
        | .failed e _ => fail { x with buffer := x.buffer.receive bytes } e
        | .more _ => { x with buffer := x.buffer.receive bytes } := by
  cases bytes with
  | nil => exact absurd rfl hbytes
  | cons byte bytes => rfl

theorem result?_received {h : Handshake} (hdialed : x.dialed = some h.infoHash) :
    (received served x now h).result? = some (.ok h) := by
  simp only [received, hdialed, if_true, result?]

theorem received_of_dialed {h : Handshake} (hdialed : x.dialed = some h.infoHash) :
    received served x now h = { x with theirs := some h, phase := .over (.ok h) } := by
  simp only [received, hdialed, if_true]

theorem received_of_served {h : Handshake} (hdialed : x.dialed = none)
    (hserved : served h.infoHash = true) :
    received served x now h = { x with
      theirs := some h
      phase := .writing (Handshake.plain h.infoHash x.ownId).encode
      deadline := now + x.timeout } := by
  simp only [received, hdialed, hserved, if_true]

/-- An exchange that waits for the rest of a handshake, of which some bytes are still to come. -/
structure Awaits (x : Exchange) (l : Link) (coming whole : Bytes) : Prop where
  reading : x.phase = .reading
  fresh : x.buffer.Fresh 0
  short : x.buffer.pending.length < handshakeLength
  bytes_eq : x.buffer.pending ++ l.incoming.held ++ coming = whole

theorem Awaits.step {coming whole s : Bytes} {h : Handshake} (hawaits : x.Awaits l coming whole)
    (hwhole : whole = h.encode ++ s) (htime : now < x.deadline.ceilMilliseconds)
    (hlast : l.incoming.closed = true → coming = [])
    (hstep : x.step? served now l = some (x', l')) :
    ∃ buffer incoming, l' = { l with incoming := incoming }
      ∧ incoming.closed = l.incoming.closed
      ∧ ((x' = { x with buffer := buffer }
          ∧ Awaits { x with buffer := buffer } l' coming whole)
        ∨ (x' = received served { x with buffer := buffer } now h
          ∧ buffer.pending ++ incoming.held ++ coming = s)) := by
  subst hwhole
  have hshort := hawaits.short
  have hmore : l.incoming.closed = true → l.incoming.held ≠ [] := by
    intro hclosed hnone
    have hlength := congrArg List.length hawaits.bytes_eq
    rw [hnone, hlast hclosed, List.append_nil, List.append_nil, List.length_append,
      Handshake.length_encode] at hlength
    omega
  obtain ⟨bytes, incoming, hbytes, hfit, rfl, hclosed, hsplit, rfl⟩ :=
    step?_reading hawaits.reading (hawaits.fresh.room_pos hshort) htime hmore hstep
  have hstream : (x.buffer.receive bytes).pending ++ (incoming.held ++ coming) = h.encode ++ s := by
    rw [ReadBuffer.receive, ← hawaits.bytes_eq, ← hsplit]
    simp only [List.append_assoc]
  rw [receive_data hbytes]
  rcases FeedReader.front_of_stream hstream with ⟨more, hpending, hrest⟩ | ⟨more, hne, hfront, hcoming⟩
  · refine ⟨(x.buffer.receive bytes).consume handshakeLength, incoming, rfl, hclosed,
      Or.inr ⟨?_, ?_⟩⟩
    · rw [ReadBuffer.handshake_of_encode hpending]
    · rw [ReadBuffer.pending_consume, hpending, ← h.length_encode, List.drop_left,
        List.append_assoc, hrest]
  · refine ⟨x.buffer.receive bytes, incoming, rfl, hclosed, Or.inl ⟨?_, ?_⟩⟩
    · rw [ReadBuffer.handshake_of_front hfront hne]
    · refine ⟨hawaits.reading, hawaits.fresh.receive hfit, ?_, ?_⟩
      · have hlength := congrArg List.length hfront
        have hpos := List.length_pos_iff.mpr hne
        rw [List.length_append, Handshake.length_encode] at hlength
        exact Nat.lt_of_lt_of_le (Nat.lt_add_of_pos_right hpos) (Nat.le_of_eq hlength)
      · rw [List.append_assoc]
        exact hstream

/-- A link that may still bring something never cuts the handshake off. -/
theorem Awaits.step_of_open {coming whole s : Bytes} {h : Handshake}
    (hawaits : x.Awaits l coming whole) (hwhole : whole = h.encode ++ s)
    (htime : now < x.deadline.ceilMilliseconds) (hopen : l.incoming.closed = false)
    (hstep : x.step? served now l = some (x', l')) :
    ∃ buffer incoming, l' = { l with incoming := incoming } ∧ incoming.closed = false
      ∧ ((x' = { x with buffer := buffer }
          ∧ Awaits { x with buffer := buffer } l' coming whole)
        ∨ (x' = received served { x with buffer := buffer } now h
          ∧ buffer.pending ++ incoming.held ++ coming = s)) := by
  obtain ⟨buffer, incoming, hlink, hclosed, hnext⟩ := hawaits.step hwhole htime
    (fun hclosed => Bool.noConfusion (hopen.symm.trans hclosed)) hstep
  exact ⟨buffer, incoming, hlink, hclosed.trans hopen, hnext⟩

end Exchange

end TorrentCore
