import Mathlib.Logic.Relation
import TorrentCore.Proofs.Connection.Outbox
import TorrentCore.Proofs.Connection.Record

/-!
# What the end of a connection leaves behind

A connection works while others do too: they take packets from its pool and bring them to its
queue or drop them, use the channels and the pools that it shares, count holders of their own, and
tell it to end. A `Course` is a connection together with the accounts that could be kept of all
this. One invariant says that every packet is where the accounts have it and that the peer's pieces
are counted as long as the run lasts. It is kept by every step, so nothing is left at the end,
whichever step that was: no packet is in the queue or under way, and the counts are those of the
others.
-/

namespace TorrentCore

namespace Endpoint

/-- What a connection at work may do next. The link may also fail it while it waits there. -/
inductive Acts (e : Endpoint) : Endpoint → Prop
  | receive {now : Nanoseconds} {e' : Endpoint} (h : e.receive? now = some e') : Acts e e'
  | transmit {now : Nanoseconds} {e' : Endpoint} (h : e.transmit? now = some e') : Acts e e'
  | stop {e' : Endpoint} (h : e.stop? = some e') : Acts e e'
  | readFails {deadline : Nanoseconds} (cause : String) (hrunning : e.connection.isRunning = true)
      (hreader : e.connection.reader = .reading deadline) :
      Acts e (e.finish (.error (.read cause)))
  | writeFails {packet : Buffer} {rest : Bytes} {deadline : Nanoseconds} (cause : String)
      (hrunning : e.connection.isRunning = true)
      (hwriter : e.connection.writer = .writing packet rest deadline) :
      Acts e (e.finish (.error (.write cause)))

variable {e e' : Endpoint}

theorem Acts.exists_step (h : e.Acts e') :
    ∃ made returned, e.outbox.Step made returned e'.outbox := by
  cases h with
  | receive h => exact ⟨[], exists_step_receive h⟩
  | transmit h => exact exists_step_transmit h
  | stop h => exact ⟨[], exists_step_stop h⟩
  | readFails cause _ _ | writeFails cause _ _ => exact ⟨[], _, .finish _⟩

theorem Acts.recorded (h : e.Acts e') : e.Recorded e' := by
  cases h with
  | receive h => exact recorded_receive h
  | transmit h => exact recorded_transmit h
  | stop h => exact recorded_stop h
  | readFails cause hrunning _ | writeFails cause hrunning _ =>
      exact recorded_finish (Connection.hasEnded_of_isRunning hrunning) _

theorem Acts.isRunning (h : e.Acts e') : e.connection.isRunning = true := by
  cases h with
  | receive h =>
      unfold receive? at h
      simp only at h
      split at h
      · cases h
      · next hrunning => simpa using hrunning
  | transmit h =>
      unfold transmit? at h
      simp only at h
      split at h
      · cases h
      · next hrunning => simpa using hrunning
  | stop h =>
      unfold stop? at h
      split at h
      · next hrunning => exact (Bool.and_eq_true_iff.mp hrunning).1
      · cases h
  | readFails cause hrunning _ | writeFails cause hrunning _ => exact hrunning

theorem Acts.finishes {made returned : List Buffer} (h : e.Acts e')
    (hpackets : e.outbox.Step made returned e'.outbox)
    (hstopped : e'.connection.isRunning = false) :
    ∃ result, e'.outbox = e.outbox.finish result := by
  rcases hpackets.goesOn_or_ends with ⟨hstatus, -, -⟩ | hfinish
  · have hstatus' : e'.connection.status = e.connection.status := hstatus
    have hrunning := h.isRunning
    rw [Connection.isRunning, ← hstatus', ← Connection.isRunning, hstopped] at hrunning
    cases hrunning
  · exact hfinish

theorem outbox_accept (e : Endpoint) (now : Nanoseconds) (p : Parcel) (queue : Channel Buffer) :
    (e.accept now p queue).outbox = { e.outbox with queue := queue } :=
  (Flagged.outbox_eq (e := { e with connection := { e.connection with queue := queue } })
    (e.flagged_accept now p queue)).trans rfl

end Endpoint

/-- A connection, and what its surroundings could write down about it. -/
structure Course where
  endpoint : Endpoint
  /-- Packets that senders have taken from the pool and not yet brought to the queue. -/
  loose : List Parcel
  queued : List Buffer
  made : List Buffer
  returned : List Buffer
  /-- How many packets of the pool anybody else has. -/
  elsewhere : Nat
  others : Nat → Nat

namespace Course

/-- One step of the connection or of its surroundings. -/
inductive Step (s : Course) : Course → Prop
  | starts (now : Nanoseconds) :
      Step s { s with endpoint :=
        { s.endpoint with connection := s.endpoint.connection.start now } }
  | acts {e' : Endpoint} {made returned : List Buffer} (hacts : s.endpoint.Acts e')
      (hpackets : s.endpoint.outbox.Step made returned e'.outbox) :
      Step s { s with
        endpoint := e'
        made := s.made ++ made
        returned := s.returned ++ returned }
  | prepares (bytes : Bytes) (message : Option Message) :
      Step s { s with
        endpoint := { s.endpoint with hub := { s.endpoint.hub with
          packetPool := (s.endpoint.hub.packetPool.takeFilled bytes).2 } }
        loose := s.loose ++ [⟨(s.endpoint.hub.packetPool.takeFilled bytes).1, message⟩] }
  /-- A sender that was told of the end may still find a place in the queue before. -/
  | queues (now : Nanoseconds) (p : Parcel) {before after : List Parcel} {queue : Channel Buffer}
      (hloose : s.loose = before ++ p :: after)
      (hoffer : s.endpoint.connection.queue.offer p.packet = .accepted queue) :
      Step s { s with
        endpoint := s.endpoint.accept now p queue
        loose := before ++ after
        queued := s.queued ++ [p.packet] }
  | drops (p : Parcel) {before after : List Parcel} (hloose : s.loose = before ++ p :: after) :
      Step s { s with
        endpoint := { s.endpoint with hub := s.endpoint.hub.unpack p }
        loose := before ++ after }
  | disconnects :
      Step s { s with endpoint :=
        { s.endpoint with connection := s.endpoint.connection.disconnect } }
  | farEnd (link : Link) : Step s { s with endpoint := { s.endpoint with link := link } }
  | takesElsewhere :
      Step s { s with
        endpoint := { s.endpoint with hub := { s.endpoint.hub with
          packetPool := s.endpoint.hub.packetPool.take.2 } }
        elsewhere := s.elsewhere + 1 }
  | givesElsewhere (b : Buffer) {more : Nat} (hmore : s.elsewhere = more + 1) :
      Step s { s with
        endpoint := { s.endpoint with hub := { s.endpoint.hub with
          packetPool := s.endpoint.hub.packetPool.giveBack b } }
        elsewhere := more }
  /-- Channels are emptied, filled by others and closed, and blocks come back. -/
  | shares (blocks : Channel Block) (uploads : Channel UploadRequest) (blockPool : BufferPool) :
      Step s { s with endpoint := { s.endpoint with hub := { s.endpoint.hub with
        blocks := blocks, uploads := uploads, blockPool := blockPool } } }
  | counts (availability : Availability) (others : Nat → Nat)
      (hfits : availability.Fits s.endpoint.connection.pieces)
      (hcount : ∀ index, (availability.get index).toNat
        = others index + (s.endpoint.connection.holds index).toNat)
      (hroom : ∀ index, others index + 1 < 4294967296) :
      Step s { s with
        endpoint := { s.endpoint with hub := { s.endpoint.hub with availability := availability } }
        others := others }

abbrev Run : Course → Course → Prop := Relation.ReflTransGen Step

/-- A connection that was just made. It has no packets, and nothing is known of its peer. -/
structure Starts (s : Course) : Prop where
  connection : ∃ address peerId pieceCount options buffer now, s.endpoint.connection
    = .make address peerId pieceCount options buffer now
  loose : s.loose = []
  queued : s.queued = []
  made : s.made = []
  returned : s.returned = []
  elsewhere : s.endpoint.hub.packetPool.outstanding = s.elsewhere
  counts : s.endpoint.hub.availability.counts.length = s.endpoint.connection.pieces.pieceCount
  others : ∀ index, (s.endpoint.hub.availability.get index).toNat = s.others index
  room : ∀ index, s.others index + 1 < 4294967296

/-- The accounts are right, and an end leaves nothing. -/
structure Orderly (s : Course) : Prop where
  outstanding : s.endpoint.hub.packetPool.outstanding
    = s.elsewhere + s.loose.length + s.endpoint.outbox.held.length
  packets : (s.returned ++ s.endpoint.outbox.held).Perm (s.queued ++ s.made)
  counted : s.endpoint.Counted s.others
  room : ∀ index, s.others index + 1 < 4294967296
  idle : s.endpoint.connection.status = .notStarted →
    ∃ keepAlive, s.endpoint.connection.writer = .waiting keepAlive
  ended : s.endpoint.connection.hasEnded = true → s.endpoint.connection.cancelled = true
    ∧ s.endpoint.connection.queue.closed = true ∧ s.endpoint.outbox.held = []

variable {s s' : Course}

/-- The accounts leave out nothing that the connection can do. -/
theorem exists_step_of_acts {e' : Endpoint} (h : s.endpoint.Acts e') : ∃ made returned,
    s.Step { s with
      endpoint := e'
      made := s.made ++ made
      returned := s.returned ++ returned } := by
  obtain ⟨made, returned, hpackets⟩ := h.exists_step
  exact ⟨made, returned, .acts h hpackets⟩

def packed (s : Course) (m : Message) : Course :=
  { s with
    endpoint := { s.endpoint with hub := (s.endpoint.hub.pack m).2 }
    loose := s.loose ++ [(s.endpoint.hub.pack m).1] }

theorem run_of_send_sent {now : Nanoseconds} {late : Bool} {m : Message} {e' : Endpoint}
    (h : (s.packed m).endpoint.send now late (s.endpoint.hub.pack m).1 = .sent e') :
    Run s { s with
      endpoint := e'
      queued := s.queued ++ [(s.endpoint.hub.pack m).1.packet] } := by
  obtain ⟨queue, hoffer, rfl⟩ := Endpoint.send_eq_sent h
  have hpacks : s.Step (s.packed m) := .prepares m.encode (some m)
  have hqueues := Step.queues (s := s.packed m) now _ rfl hoffer
  rw [List.append_nil] at hqueues
  exact (Relation.ReflTransGen.single hpacks).tail hqueues

theorem run_of_send_refused {now : Nanoseconds} {late : Bool} {m : Message} {cause : Error}
    {e' : Endpoint}
    (h : (s.packed m).endpoint.send now late (s.endpoint.hub.pack m).1 = .refused cause e') :
    Run s { s with endpoint := e' } := by
  obtain ⟨rfl, -⟩ := Endpoint.send_eq_refused h
  have hpacks : s.Step (s.packed m) := .prepares m.encode (some m)
  have hdrops := Step.drops (s := s.packed m) (s.endpoint.hub.pack m).1 rfl
  rw [List.append_nil] at hdrops
  exact (Relation.ReflTransGen.single hpacks).tail hdrops

theorem Starts.orderly (h : s.Starts) : s.Orderly := by
  obtain ⟨address, peerId, pieceCount, options, buffer, now, hmake⟩ := h.connection
  have hheld : s.endpoint.outbox.held = [] := by
    rw [Outbox.held]
    simp only [Endpoint.outbox, hmake]
    rfl
  have hrunning : s.endpoint.connection.hasEnded = false := by
    rw [hmake]
    rfl
  have hnone (index : Nat) : s.endpoint.connection.pieces.contains index = false := by
    rw [hmake]
    exact Bitfield.contains_empty _ _
  refine ⟨?_, ?_, ⟨⟨?_, h.counts.symm⟩, fun index => ?_⟩, h.room, fun _ => ?_, fun hended => ?_⟩
  · rw [hheld, h.loose, h.elsewhere]
    rfl
  · rw [hheld, h.returned, h.queued, h.made]
  · rw [hmake]
    exact Bitfield.wellFormed_empty _
  · rw [h.others, Connection.holds, hnone, Bool.and_false]
    rfl
  · rw [hmake]
    exact ⟨_, rfl⟩
  · rw [hrunning] at hended
    cases hended

theorem Orderly.starts (h : s.Orderly) (now : Nanoseconds) :
    Orderly { s with endpoint :=
      { s.endpoint with connection := s.endpoint.connection.start now } } := by
  unfold Connection.start
  split
  · next hstatus =>
    obtain ⟨keepAlive, hwriter⟩ := h.idle hstatus
    have hheld : s.endpoint.outbox.held = s.endpoint.connection.queue.items := by
      rw [Outbox.held]
      simp only [Endpoint.outbox, hwriter]
    have houtstanding := h.outstanding
    have hpackets := h.packets
    rw [hheld] at houtstanding hpackets
    have hended : s.endpoint.connection.hasEnded = false := by
      rw [Connection.hasEnded, hstatus]
    refine ⟨houtstanding, hpackets, ⟨h.counted.fits, fun index => ?_⟩, h.room, ?_, ?_⟩
    · have hcount := h.counted.count_eq index
      rw [Endpoint.holds_of_running hended] at hcount
      exact hcount
    · intro hnot
      cases hnot
    · intro hended'
      cases hended'
  · exact h

theorem Orderly.acts (h : s.Orderly) {e' : Endpoint} {made returned : List Buffer}
    (hacts : s.endpoint.Acts e') (hpackets : s.endpoint.outbox.Step made returned e'.outbox) :
    Orderly { s with
      endpoint := e'
      made := s.made ++ made
      returned := s.returned ++ returned } := by
  refine ⟨hpackets.outstanding h.outstanding, ?_, (h.counted.of_recorded hacts.recorded h.room).1,
    h.room, fun hidle => ?_, fun hended => ?_⟩
  · show ((s.returned ++ returned) ++ e'.outbox.held).Perm (s.queued ++ (s.made ++ made))
    rw [List.append_assoc, ← List.append_assoc s.queued]
    refine (hpackets.perm.append_left s.returned).trans ?_
    rw [← List.append_assoc]
    exact h.packets.append_right made
  · have hstopped : e'.connection.isRunning = false := by
      rw [Connection.isRunning, hidle]
    obtain ⟨result, hfinish⟩ := hacts.finishes hpackets hstopped
    have hstatus : e'.connection.status = .ended result := congrArg Outbox.status hfinish
    rw [hstatus] at hidle
    cases hidle
  · obtain ⟨result, hfinish⟩ :=
      hacts.finishes hpackets (Connection.not_isRunning_of_hasEnded hended)
    exact ⟨congrArg Outbox.cancelled hfinish,
      congrArg (fun o => o.queue.closed) hfinish, by rw [hfinish]; rfl⟩

theorem Orderly.of_same (h : s.Orderly)
    (hconnection : s'.endpoint.connection = s.endpoint.connection)
    (hcounts : s'.endpoint.hub.availability = s.endpoint.hub.availability)
    (hlists : s'.queued = s.queued ∧ s'.made = s.made ∧ s'.returned = s.returned)
    (hothers : s'.others = s.others)
    (houtstanding : s.endpoint.hub.packetPool.outstanding
        = s.elsewhere + s.loose.length + s.endpoint.outbox.held.length →
      s'.endpoint.hub.packetPool.outstanding
        = s'.elsewhere + s'.loose.length + s.endpoint.outbox.held.length) : s'.Orderly := by
  have hheld : s'.endpoint.outbox.held = s.endpoint.outbox.held := by
    simp only [Outbox.held, Endpoint.outbox, hconnection]
  obtain ⟨hqueued, hmade, hreturned⟩ := hlists
  refine ⟨?_, ?_, ⟨?_, ?_⟩, ?_, ?_, ?_⟩
  · rw [hheld]
    exact houtstanding h.outstanding
  · rw [hheld, hqueued, hmade, hreturned]
    exact h.packets
  · rw [hcounts, hconnection]
    exact h.counted.fits
  · rw [hcounts, hconnection, hothers]
    exact h.counted.count_eq
  · rw [hothers]
    exact h.room
  · rw [hconnection]
    exact h.idle
  · rw [hconnection, hheld]
    exact h.ended

theorem Orderly.queues (h : s.Orderly) (now : Nanoseconds) (p : Parcel)
    {before after : List Parcel} {queue : Channel Buffer} (hloose : s.loose = before ++ p :: after)
    (hoffer : s.endpoint.connection.queue.offer p.packet = .accepted queue) :
    Orderly { s with
      endpoint := s.endpoint.accept now p queue
      loose := before ++ after
      queued := s.queued ++ [p.packet] } := by
  obtain ⟨hopen, -, hqueue⟩ := Channel.offer_eq_accepted_iff.mp hoffer
  have houtbox := s.endpoint.outbox_accept now p queue
  have hsame := (s.endpoint.flagged_accept now p queue).sameRecord
  have hrecorded : s.endpoint.Recorded (s.endpoint.accept now p queue) :=
    .nothing _ ⟨hsame.hasEnded_eq, hsame.pieces_eq⟩ rfl
  have hcounted := (h.counted.of_recorded hrecorded h.room).1
  -- The packet comes behind those that are there, one of which may be on its way already.
  have hheld : (s.endpoint.accept now p queue).outbox.held
      = s.endpoint.outbox.held ++ [p.packet] := by
    rw [houtbox, hqueue]
    simp only [Outbox.held, Endpoint.outbox]
    cases s.endpoint.connection.writer with
    | waiting keepAlive => rfl
    | writing packet rest deadline => rfl
  refine ⟨?_, ?_, hcounted, h.room, fun hidle => ?_, fun hended => ?_⟩
  · have houtstanding := h.outstanding
    rw [hloose, List.length_append, List.length_cons] at houtstanding
    rw [hheld]
    show s.endpoint.hub.packetPool.outstanding
      = s.elsewhere + (before ++ after).length + (s.endpoint.outbox.held ++ [p.packet]).length
    rw [List.length_append, List.length_append, List.length_singleton, houtstanding]
    omega
  · rw [hheld]
    show (s.returned ++ (s.endpoint.outbox.held ++ [p.packet])).Perm
      ((s.queued ++ [p.packet]) ++ s.made)
    rw [← List.append_assoc, List.append_assoc s.queued]
    refine (h.packets.append_right [p.packet]).trans ?_
    rw [List.append_assoc]
    exact List.perm_append_comm.append_left s.queued
  · obtain ⟨keepAlive, hwriter⟩ := h.idle ((congrArg Outbox.status houtbox).symm.trans hidle)
    exact ⟨keepAlive, (congrArg Outbox.writer houtbox).trans hwriter⟩
  · obtain ⟨-, hclosed, -⟩ := h.ended (hsame.hasEnded_eq.symm.trans hended)
    rw [hopen] at hclosed
    cases hclosed

theorem Orderly.step (h : s.Orderly) (hstep : s.Step s') : s'.Orderly := by
  cases hstep with
  | starts now => exact h.starts now
  | acts hacts hpackets => exact h.acts hacts hpackets
  | prepares bytes message =>
      refine h.of_same rfl rfl ⟨rfl, rfl, rfl⟩ rfl fun hcount => ?_
      show (BufferPool.takeFilled _ bytes).2.outstanding
        = s.elsewhere + (s.loose ++ [_]).length + s.endpoint.outbox.held.length
      rw [BufferPool.outstanding_takeFilled, hcount, List.length_append, List.length_singleton]
      omega
  | queues now p hloose hoffer => exact h.queues now p hloose hoffer
  | @drops p before after hloose =>
      refine h.of_same rfl rfl ⟨rfl, rfl, rfl⟩ rfl fun hcount => ?_
      rw [hloose, List.length_append, List.length_cons] at hcount
      show (BufferPool.giveBack _ p.packet).outstanding
        = s.elsewhere + (before ++ after).length + s.endpoint.outbox.held.length
      rw [BufferPool.outstanding_giveBack, hcount, List.length_append]
      omega
  | disconnects =>
      exact ⟨h.outstanding, h.packets, ⟨h.counted.fits, h.counted.count_eq⟩, h.room, h.idle,
        fun hended => ⟨rfl, (h.ended hended).2⟩⟩
  | farEnd link => exact h.of_same rfl rfl ⟨rfl, rfl, rfl⟩ rfl id
  | takesElsewhere =>
      refine h.of_same rfl rfl ⟨rfl, rfl, rfl⟩ rfl fun hcount => ?_
      show (BufferPool.take _).2.outstanding
        = s.elsewhere + 1 + s.loose.length + s.endpoint.outbox.held.length
      rw [BufferPool.outstanding_take, hcount]
      omega
  | @givesElsewhere b more hmore =>
      refine h.of_same rfl rfl ⟨rfl, rfl, rfl⟩ rfl fun hcount => ?_
      show (BufferPool.giveBack _ b).outstanding
        = more + s.loose.length + s.endpoint.outbox.held.length
      rw [BufferPool.outstanding_giveBack, hcount, hmore]
      omega
  | shares blocks uploads blockPool => exact h.of_same rfl rfl ⟨rfl, rfl, rfl⟩ rfl id
  | counts availability others hfits hcount hroom =>
      exact ⟨h.outstanding, h.packets, ⟨hfits, hcount⟩, hroom, h.idle, h.ended⟩

theorem Orderly.run (h : s.Orderly) (hrun : Run s s') : s'.Orderly := by
  induction hrun with
  | refl => exact h
  | tail _ hstep ih => exact ih.step hstep

/-! ### The end -/

/-- Only steps of the connection itself touch the record of its peer, or end it. -/
theorem Step.acts_or_same (h : s.Step s') : s.endpoint.Acts s'.endpoint
    ∨ Connection.SameRecord s.endpoint.connection s'.endpoint.connection := by
  cases h with
  | acts hacts _ => exact .inl hacts
  | starts now =>
      refine .inr ?_
      show Connection.SameRecord s.endpoint.connection (s.endpoint.connection.start now)
      unfold Connection.start
      split
      · next hstatus => exact ⟨by rw [Connection.hasEnded, Connection.hasEnded, hstatus], rfl⟩
      · exact .refl _
  | @queues now p before after queue hloose hoffer =>
      have hsame := (s.endpoint.flagged_accept now p queue).sameRecord
      exact .inr ⟨hsame.hasEnded_eq, hsame.pieces_eq⟩
  | prepares | drops | disconnects | farEnd | takesElsewhere | givesElsewhere | shares | counts =>
      exact .inr ⟨rfl, rfl⟩

theorem Step.remove_of_ends (h : s.Step s') (hbefore : s.endpoint.connection.hasEnded = false)
    (hafter : s'.endpoint.connection.hasEnded = true) :
    s'.endpoint.hub.availability
      = s.endpoint.hub.availability.remove s.endpoint.connection.pieces := by
  rcases h.acts_or_same with hacts | hsame
  · cases hacts.recorded with
    | nothing _ hsame _ =>
        rw [hsame.hasEnded_eq, hbefore] at hafter
        cases hafter
    | oneMore _ _ _ _ _ hrunning _ _ =>
        rw [hrunning] at hafter
        cases hafter
    | another _ _ _ hrunning _ _ =>
        rw [hrunning] at hafter
        cases hafter
    | ended _ _ _ _ hcounts => exact hcounts
  · rw [hsame.hasEnded_eq, hbefore] at hafter
    cases hafter

theorem not_acts_of_hasEnded (hended : s.endpoint.connection.hasEnded = true) (e' : Endpoint) :
    ¬ s.endpoint.Acts e' := by
  intro hacts
  have hrunning := hacts.isRunning
  rw [Connection.not_isRunning_of_hasEnded hended] at hrunning
  cases hrunning

theorem exists_end {start : Course} (hrun : Run start s)
    (hstart : start.endpoint.connection.hasEnded = false)
    (hended : s.endpoint.connection.hasEnded = true) :
    ∃ t t', Run start t ∧ t.endpoint.connection.hasEnded = false ∧ t.Step t'
      ∧ t'.endpoint.connection.hasEnded = true ∧ Run t' s := by
  induction hrun with
  | refl =>
      rw [hstart] at hended
      cases hended
  | @tail t s hrun hstep ih =>
      cases hbefore : t.endpoint.connection.hasEnded with
      | false => exact ⟨t, s, hrun, hbefore, hstep, hended, .refl⟩
      | true =>
          obtain ⟨u, u', hfirst, hnot, hlast, hover, hrest⟩ := ih hbefore
          exact ⟨u, u', hfirst, hnot, hlast, hover, hrest.tail hstep⟩

/-- Whatever ended a connection: it was told to end, its queue is closed and empty, every packet
that was ever queued or made has gone back to the pool, nobody can send through it any more, and its
peer is no longer counted. That happened once, with the step that ended it. -/
theorem ended_leaves_nothing {start : Course} (hstart : start.Starts) (hrun : Run start s)
    (hended : s.endpoint.connection.hasEnded = true) :
    s.endpoint.connection.cancelled = true
      ∧ (s.endpoint.connection.queue.closed = true ∧ s.endpoint.connection.queue.items = [])
      ∧ (s.returned.Perm (s.queued ++ s.made)
        ∧ s.endpoint.hub.packetPool.outstanding = s.elsewhere + s.loose.length)
      ∧ (∀ now late p, s.endpoint.send now late p
          = .refused (if late then .channelClosed else .cancelled)
            { s.endpoint with hub := s.endpoint.hub.unpack p }
        ∧ s.endpoint.connection.queue.offer p.packet = .refused)
      ∧ (∀ index, (s.endpoint.hub.availability.get index).toNat = s.others index)
      ∧ (∃ t t', Run start t ∧ t.endpoint.connection.hasEnded = false ∧ t.Step t'
        ∧ t'.endpoint.connection.hasEnded = true ∧ Run t' s
        ∧ t'.endpoint.hub.availability
          = t.endpoint.hub.availability.remove t.endpoint.connection.pieces)
      ∧ ∀ e', ¬ s.endpoint.Acts e' := by
  have h : s.Orderly := hstart.orderly.run hrun
  obtain ⟨hcancelled, hclosed, hheld⟩ := h.ended hended
  have hpackets := h.packets
  have houtstanding := h.outstanding
  rw [hheld, List.append_nil] at hpackets
  rw [hheld] at houtstanding
  have hfresh : start.endpoint.connection.hasEnded = false := by
    obtain ⟨_, _, _, _, _, _, hmake⟩ := hstart.connection
    rw [hmake]
    rfl
  obtain ⟨t, t', hfirst, hbefore, hstep, hafter, hrest⟩ := exists_end hrun hfresh hended
  refine ⟨hcancelled, ⟨hclosed, Outbox.items_of_held hheld⟩, ⟨hpackets, houtstanding⟩,
    fun now late p => ?_, fun index => ?_, ⟨t, t', hfirst, hbefore, hstep, hafter, hrest,
      hstep.remove_of_ends hbefore hafter⟩, not_acts_of_hasEnded hended⟩
  · have hoffer : s.endpoint.connection.queue.offer p.packet = .refused :=
      Channel.offer_eq_refused_iff.mpr hclosed
    refine ⟨?_, hoffer⟩
    rw [Endpoint.send, hcancelled, hoffer]
    cases late <;> rfl
  · rw [h.counted.count_eq, Connection.holds, hended]
    rfl

def receives : Nat → Endpoint → Option Endpoint
  | 0, e => some e
  | count + 1, e => (e.receive? 0).bind (receives count)

theorem exists_run_of_receives {count : Nat} {e' : Endpoint}
    (h : receives count s.endpoint = some e') : ∃ s', Run s s' ∧ s'.endpoint = e'
      ∧ s'.queued = s.queued ∧ s'.others = s.others := by
  induction count generalizing s with
  | zero =>
      cases h
      exact ⟨s, .refl, rfl, rfl, rfl⟩
  | succ count ih =>
      obtain ⟨e, hreceive, hrest⟩ := Option.bind_eq_some_iff.mp h
      obtain ⟨made, returned, hstep⟩ := exists_step_of_acts (s := s) (.receive hreceive)
      obtain ⟨s', hrun, hendpoint, hqueued, hothers⟩ := ih (s := { s with
        endpoint := e, made := s.made ++ made, returned := s.returned ++ returned }) hrest
      exact ⟨s', .head hstep hrun, hendpoint, hqueued, hothers⟩

/-- A peer that tells of one piece, which another peer has too, and closes the link. -/
def passing : Course where
  endpoint := ⟨.make ⟨.v4 [127, 0, 0, 1], 1⟩ .zero 2 {} (.forMessages 4096) 0,
    { blocks := .make 1
      uploads := .make 1
      availability := ⟨[1, 0]⟩
      blockPool := .make 16 1
      packetPool := .make 64 1 },
    ⟨((Pipe.make 64).append (Message.has 0).encode).close, .make 64⟩⟩
  loose := []
  queued := []
  made := []
  returned := []
  elsewhere := 0
  others := fun index => if index = 0 then 1 else 0

theorem starts_passing : passing.Starts where
  connection := ⟨_, _, _, _, _, _, rfl⟩
  loose := rfl
  queued := rfl
  made := rfl
  returned := rfl
  elsewhere := rfl
  counts := rfl
  others index := by
    match index with
    | 0 => rfl
    | 1 => rfl
    | index + 2 => rfl
  room index := by
    show (if index = 0 then 1 else 0) + 1 < 4294967296
    split <;> decide

/-- A packet is queued, and the peer is counted and goes. -/
theorem ended_leaves_nothing_passing : ∃ s, passing.Starts ∧ Run passing s
    ∧ s.endpoint.connection.hasEnded = true
    ∧ s.queued = [⟨64, Message.interested.encode⟩] ∧ s.returned.Perm (s.queued ++ s.made)
    ∧ (s.endpoint.hub.availability.get 0).toNat = 1 := by
  have htest : (match (passing.packed .interested).endpoint.send 0 false
        (passing.endpoint.hub.pack .interested).1 with
      | .sent e => (receives 5 { e with connection := e.connection.start 0 }).any
          fun e => e.connection.hasEnded
      | _ => false) = true := by
    decide +kernel
  split at htest
  · next sent hsent =>
    obtain ⟨e', hreceives, hended⟩ := (Option.any_eq_true _ _).mp htest
    have hsending := run_of_send_sent hsent
    obtain ⟨s, hrun, rfl, hqueued, hothers⟩ := exists_run_of_receives (s := { passing with
      endpoint := { sent with connection := sent.connection.start 0 }
      queued := passing.queued ++ [(passing.endpoint.hub.pack .interested).1.packet] }) hreceives
    have hwhole : Run passing s := (hsending.tail (.starts 0)).trans hrun
    obtain ⟨-, -, ⟨hreturned, -⟩, -, hcounts, -⟩ :=
      ended_leaves_nothing starts_passing hwhole hended
    refine ⟨s, starts_passing, hwhole, hended, hqueued, hreturned, ?_⟩
    rw [hcounts, hothers]
    rfl
  · cases htest

end Course

end TorrentCore
