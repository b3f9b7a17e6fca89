import TorrentCore.Proofs.Connection.Tally
import TorrentCore.Proofs.Stream.ReadBuffer
import TorrentCore.Proofs.Wire.Codec

/-!
# The two streams of a connection

Out goes what was accepted by the queue, frame after frame, with a keep-alive between two of them
when the queue was empty for long. `Outgoing` accounts for every byte of that: it was carried away,
it waits on the link, it is still to be written, or its packet waits in the queue. When the run
ends the last two are lost, and nothing follows them.

In come the messages that the reader takes. `Incoming` says that they are the first results of all
that has come, whatever may come after it, and that the other results are those of the bytes that
the reader has not used.

A step of the reader leaves the one alone and a step of the writer the other, except that both may
be the end of the run.
-/

namespace TorrentCore

/-- Messages with keep-alives put in anywhere. -/
inductive WithKeepAlives : List Message → List Message → Prop
  | nil : WithKeepAlives [] []
  | message (m : Message) {messages script : List Message} (h : WithKeepAlives messages script) :
      WithKeepAlives (m :: messages) (m :: script)
  | keepAlive {messages script : List Message} (h : WithKeepAlives messages script) :
      WithKeepAlives messages (.keepAlive :: script)

namespace WithKeepAlives

theorem refl (messages : List Message) : WithKeepAlives messages messages := by
  induction messages with
  | nil => exact .nil
  | cons m messages ih => exact .message m ih

theorem append {messages messages' script script' : List Message}
    (h : WithKeepAlives messages script) (h' : WithKeepAlives messages' script') :
    WithKeepAlives (messages ++ messages') (script ++ script') := by
  induction h with
  | nil => exact h'
  | message m _ ih => exact .message m ih
  | keepAlive _ ih => exact .keepAlive ih

theorem forall_of_keepAlive {P : Message → Prop} {messages script : List Message}
    (h : WithKeepAlives messages script) (hmessages : ∀ m ∈ messages, P m)
    (hkeepAlive : P .keepAlive) : ∀ m ∈ script, P m := by
  induction h with
  | nil => exact hmessages
  | message m _ ih =>
      exact List.forall_mem_cons.mpr ⟨hmessages m List.mem_cons_self,
        ih fun m' hm' => hmessages m' (List.mem_cons_of_mem _ hm')⟩
  | keepAlive _ ih => exact List.forall_mem_cons.mpr ⟨hkeepAlive, ih hmessages⟩

theorem filter_eq {messages script : List Message} (h : WithKeepAlives messages script) :
    script.filter (· ≠ .keepAlive) = messages.filter (· ≠ .keepAlive) := by
  induction h with
  | nil => rfl
  | message m _ ih => rw [List.filter_cons, List.filter_cons, ih]
  | keepAlive _ ih =>
      rw [List.filter_cons, ih]
      rfl

end WithKeepAlives

namespace Message

/-- The frame of the message is read as the message. -/
def IsReadable (limit : UInt32) (m : Message) : Prop :=
  decode m.encode limit = .ok (m, m.encode.length)

theorem isReadable_keepAlive (limit : UInt32) : keepAlive.IsReadable limit := by
  have hshort : keepAlive.body.length < 4294967296 := by decide
  have hword : keepAlive.lengthWord ≤ limit := UInt32.le_iff_toNat_le.mpr (Nat.zero_le _)
  have hdecode := decode_encode_append hshort hword (fun _ _ he => Message.noConfusion he) []
  rwa [List.append_nil] at hdecode

theorem results_flatMap_encode {limit : UInt32} {messages : List Message}
    (h : ∀ m ∈ messages, m.IsReadable limit) (rest : Bytes) :
    results limit (messages.flatMap encode ++ rest) = messages.map .ok ++ results limit rest := by
  induction messages with
  | nil => rfl
  | cons m messages ih =>
      rw [List.flatMap_cons, List.append_assoc,
        results_of_ok (decode_append_of_ok (h m List.mem_cons_self) _), List.drop_left,
        ih fun m' hm' => h m' (List.mem_cons_of_mem _ hm')]
      rfl

end Message

namespace Pipe

theorem held_of_read? {p p' : Pipe} {room : Nat} {bytes : Bytes}
    (h : p.read? room = some (.data bytes, p')) :
    bytes.length ≤ room ∧ p.held = bytes ++ p'.held := by
  unfold read? at h
  split at h
  · split at h <;> cases h
  · cases h
    rw [held_drop, List.length_take]
    exact ⟨Nat.min_le_left _ _, (List.take_append_drop room p.held).symm⟩

theorem held_of_write? {p p' : Pipe} {bytes left : Bytes} (h : p.write? bytes = some (left, p')) :
    ∃ written, bytes = written ++ left ∧ p'.held = p.held ++ written := by
  unfold write? at h
  split at h
  · cases h
  · cases h
    exact ⟨bytes.take p.room, (List.take_append_drop _ _).symm, held_append _ _⟩

end Pipe

namespace Channel

theorem items_of_take? {α : Type} {c c' : Channel α} {item : α} (h : c.take? = some (item, c')) :
    c.items = item :: c'.items := by
  unfold take? at h
  split at h
  · cases h
  · next hitems =>
    cases h
    exact hitems

end Channel

namespace Connection

theorem isRunning_of_hasEnded {c : Connection} (h : c.hasEnded = true) : c.isRunning = false := by
  unfold hasEnded at h
  unfold isRunning
  split at h
  · next hended => rw [hended]
  · cases h

end Connection

namespace Endpoint

def unwritten (e : Endpoint) : Bytes :=
  match e.connection.writer with
  | .waiting _ => []
  | .writing _ rest _ => rest

/-- The message that the reader takes with its next step. -/
def dispatches? (e : Endpoint) : Option Message :=
  if e.connection.isRunning then
    match e.connection.reader with
    | .decoding => match e.connection.buffer.message e.connection.options.maxMessage with
      | .item m _ => some m
      | _ => none
    | _ => none
  else none

/-! ### What the steps do to the streams -/

structure KeepsOutgoing (e e' : Endpoint) : Prop where
  queue_eq : e'.connection.queue = e.connection.queue
  writer_eq : e'.connection.writer = e.connection.writer
  outgoing_eq : e'.link.outgoing = e.link.outgoing
  status_eq : e'.connection.status = e.connection.status
  clean : e.hub.packetPool.Clean → e'.hub.packetPool.Clean

structure KeepsIncoming (e e' : Endpoint) : Prop where
  buffer_eq : e'.connection.buffer = e.connection.buffer
  incoming_eq : e'.link.incoming = e.link.incoming
  options_eq : e'.connection.options = e.connection.options

inductive Reads (e : Endpoint) : Option Message → Endpoint → Prop
  | nothing (e' : Endpoint) (hkeeps : e.KeepsIncoming e') : Reads e none e'
  | message (m : Message) (rest : ReadBuffer) (e' : Endpoint)
      (hfront : e.connection.buffer.message e.connection.options.maxMessage = .item m rest)
      (hkeeps : KeepsIncoming { e with connection := { e.connection with buffer := rest } } e') :
      Reads e (some m) e'
  | waits (buffer : ReadBuffer) (e' : Endpoint)
      (hfront : e.connection.buffer.message e.connection.options.maxMessage = .more buffer)
      (hkeeps : KeepsIncoming { e with connection := { e.connection with buffer := buffer } } e') :
      Reads e none e'
  | arrives (bytes : Bytes) (incoming : Pipe) (e' : Endpoint)
      (hroom : bytes.length ≤ e.connection.buffer.room)
      (hheld : e.link.incoming.held = bytes ++ incoming.held)
      (hkeeps : KeepsIncoming { e with
        connection := { e.connection with buffer := e.connection.buffer.receive bytes }
        link := { e.link with incoming := incoming } } e') :
      Reads e none e'

inductive Writes (e e' : Endpoint) : Prop
  | packet (packet : Buffer) (hdone : e.unwritten = [])
      (hqueue : e.connection.queue.items = packet :: e'.connection.queue.items)
      (hnext : e'.unwritten = packet.bytes)
      (hheld : e'.link.outgoing.held = e.link.outgoing.held)
  | keepAlive (hdone : e.unwritten = [])
      (hqueue : e'.connection.queue.items = e.connection.queue.items)
      (hnext : e.hub.packetPool.Clean → e'.unwritten = Message.encode .keepAlive)
      (hheld : e'.link.outgoing.held = e.link.outgoing.held)
  | bytes (bytes : Bytes) (hqueue : e'.connection.queue.items = e.connection.queue.items)
      (hrest : e.unwritten = bytes ++ e'.unwritten)
      (hheld : e'.link.outgoing.held = e.link.outgoing.held ++ bytes)

structure Aside (e e' : Endpoint) : Prop extends KeepsOutgoing e e', KeepsIncoming e e'

theorem KeepsIncoming.refl (e : Endpoint) : e.KeepsIncoming e := ⟨rfl, rfl, rfl⟩

theorem aside_of_flagged {e : Endpoint} {c : Connection} (h : e.connection.Flagged c) :
    e.Aside { e with connection := c } := by
  cases h
  exact ⟨⟨rfl, rfl, rfl, rfl, id⟩, ⟨rfl, rfl, rfl⟩⟩

theorem aside_apply {e e' : Endpoint} {now : Nanoseconds} {m : Message}
    (h : e.apply now m = .ok e') : e.Aside e' := by
  cases m with
  | keepAlive | request _ | cancel _ | piece _ _ _ =>
      cases h
      exact ⟨⟨rfl, rfl, rfl, rfl, id⟩, ⟨rfl, rfl, rfl⟩⟩
  | choke | unchoke =>
      cases h
      exact aside_of_flagged (Connection.flagged_setAmChoked _ _ _)
  | interested | notInterested =>
      cases h
      exact aside_of_flagged (Connection.flagged_setPeerInterested _ _ _)
  | has index =>
      cases h
      unfold applyHave
      split <;> exact ⟨⟨rfl, rfl, rfl, rfl, id⟩, ⟨rfl, rfl, rfl⟩⟩
  | bitfield bits =>
      rw [apply, applyBitfield] at h
      split at h
      · cases h
        exact ⟨⟨rfl, rfl, rfl, rfl, id⟩, ⟨rfl, rfl, rfl⟩⟩
      · cases h

theorem nothing_then_finish (e : Endpoint) (result : Except Error Unit) :
    ∃ e₀, e.KeepsOutgoing e₀ ∧ e.Reads none e₀
      ∧ (e.finish result = e₀ ∨ ∃ result', e.finish result = e₀.finish result') :=
  ⟨e, ⟨rfl, rfl, rfl, rfl, id⟩, .nothing e (.refl e), Or.inr ⟨result, rfl⟩⟩

theorem reads_of_receive? {e e' : Endpoint} {now : Nanoseconds} (h : e.receive? now = some e') :
    ∃ e₀, e.KeepsOutgoing e₀ ∧ e.Reads e.dispatches? e₀
      ∧ (e' = e₀ ∨ ∃ result, e' = e₀.finish result) := by
  unfold receive? at h
  simp only at h
  split at h
  · cases h
  next hstatus =>
  rw [Bool.not_eq_true', Bool.not_eq_false] at hstatus
  rw [dispatches?, if_pos hstatus]
  cases hphase : e.connection.reader with
  | decoding =>
      rw [hphase] at h
      simp only at h ⊢
      split at h
      · next m rest hfront =>
        rw [hfront]
        split at h
        · next happly =>
          cases h
          have haside := aside_apply happly
          refine ⟨e', ?_, .message m rest e' hfront ?_, Or.inl rfl⟩
          · exact ⟨haside.queue_eq, haside.writer_eq, haside.outgoing_eq, haside.status_eq,
              haside.clean⟩
          · exact ⟨haside.buffer_eq, haside.incoming_eq, haside.options_eq⟩
        · cases h
          refine ⟨_, ?_, ?_, Or.inr ⟨_, rfl⟩⟩
          · exact ⟨rfl, rfl, rfl, rfl, id⟩
          · exact .message m rest _ hfront ⟨rfl, rfl, rfl⟩
      · next cause _ hfront =>
        rw [hfront]
        cases h
        exact e.nothing_then_finish _
      · next buffer hfront =>
        rw [hfront]
        cases h
        refine ⟨_, ?_, ?_, Or.inl rfl⟩
        · exact ⟨rfl, rfl, rfl, rfl, id⟩
        · exact .waits buffer _ hfront ⟨rfl, rfl, rfl⟩
  | reading deadline =>
      rw [hphase] at h
      simp only at h ⊢
      split at h
      · cases h
        exact e.nothing_then_finish _
      · cases h
        exact e.nothing_then_finish _
      · cases h
        exact e.nothing_then_finish _
      · next bytes incoming _ hread =>
        cases h
        obtain ⟨hroom, hheld⟩ := Pipe.held_of_read? hread
        refine ⟨_, ?_, ?_, Or.inl rfl⟩
        · exact ⟨rfl, rfl, rfl, rfl, id⟩
        · exact .arrives bytes incoming _ hroom hheld ⟨rfl, rfl, rfl⟩
      · split at h
        · cases h
          exact e.nothing_then_finish _
        · cases h
  | offeringBlock block | offeringUpload request =>
      rw [hphase] at h
      simp only at h ⊢
      split at h
      · cases h
        refine ⟨_, ?_, ?_, Or.inl rfl⟩
        · exact ⟨rfl, rfl, rfl, rfl, id⟩
        · exact .nothing _ ⟨rfl, rfl, rfl⟩
      · cases h
      · cases h
        exact e.nothing_then_finish _

theorem writes_of_transmit? {e e' : Endpoint} {now : Nanoseconds} (h : e.transmit? now = some e') :
    (e.KeepsIncoming e' ∧ e.Writes e' ∧ e'.connection.isRunning = true)
      ∨ ∃ result, e' = e.finish result := by
  unfold transmit? at h
  simp only at h
  split at h
  · cases h
  next hstatus =>
  rw [Bool.not_eq_true', Bool.not_eq_false] at hstatus
  cases hwriter : e.connection.writer with
  | waiting keepAlive =>
      have hdone : e.unwritten = [] := by
        rw [unwritten, hwriter]
      rw [hwriter] at h
      simp only at h
      split at h
      · next packet queue htake =>
        cases h
        refine Or.inl ⟨⟨rfl, rfl, rfl⟩, .packet packet hdone ?_ rfl rfl, hstatus⟩
        exact Channel.items_of_take? htake
      · split at h
        · cases h
          refine Or.inl ⟨⟨rfl, rfl, rfl⟩, .keepAlive hdone rfl (fun hclean => ?_) rfl, hstatus⟩
          exact (Hub.bytes_pack hclean .keepAlive).1
        · cases h
  | writing packet rest deadline =>
      have hrest : e.unwritten = rest := by
        rw [unwritten, hwriter]
      rw [hwriter] at h
      cases rest with
      | nil =>
          cases h
          exact Or.inl ⟨⟨rfl, rfl, rfl⟩, .bytes [] rfl hrest (List.append_nil _).symm, hstatus⟩
      | cons byte rest =>
          simp only at h
          split at h
          · cases h
            exact Or.inr ⟨_, rfl⟩
          · next left outgoing hwrite =>
            split at h
            · cases h
              obtain ⟨bytes, hbytes, hheld⟩ := Pipe.held_of_write? hwrite
              exact Or.inl ⟨⟨rfl, rfl, rfl⟩, .bytes bytes rfl (hrest.trans hbytes) hheld, hstatus⟩
            · split at h
              · cases h
                exact Or.inr ⟨_, rfl⟩
              · cases h

theorem aside_of_sent {e e' : Endpoint} {now : Nanoseconds} {late : Bool} {p : Parcel}
    (h : e.send now late p = .sent e') :
    e.connection.queue.closed = false
      ∧ Aside { e with connection := { e.connection with queue :=
          { e.connection.queue with items := e.connection.queue.items ++ [p.packet] } } } e' := by
  obtain ⟨queue, hoffer, rfl⟩ := send_eq_sent h
  obtain ⟨hopen, _, rfl⟩ := Channel.offer_eq_accepted_iff.mp hoffer
  exact ⟨hopen, aside_of_flagged (e.flagged_accept now p _)⟩

theorem aside_of_refused {e e' : Endpoint} {now : Nanoseconds} {late : Bool} {p : Parcel}
    {cause : Error} (h : e.send now late p = .refused cause e') : e.Aside e' := by
  have hclean := (passes_of_refused h).clean
  obtain ⟨rfl, -⟩ := send_eq_refused h
  exact ⟨⟨rfl, rfl, rfl, rfl, hclean⟩, ⟨rfl, rfl, rfl⟩⟩

variable {e e' : Endpoint} {accepted dispatched script : List Message} {carried : Bytes}
  {limit : UInt32} {now : Nanoseconds}

/-! ### The stream that goes out -/

/-- What was accepted was sent or waits in the queue. What was sent, with keep-alives, has been
carried away, is on the link, or is still to be written. -/
structure Sends (e : Endpoint) (accepted : List Message) (carried : Bytes)
    (sent queued script : List Message) : Prop where
  accepted_eq : accepted = sent ++ queued
  script_eq : WithKeepAlives sent script
  queued_eq : e.connection.queue.items.map Buffer.bytes = queued.map Message.encode
  written_eq : carried ++ e.link.outgoing.held ++ e.unwritten = script.flatMap Message.encode
  unwritten_eq : e.connection.isRunning = false → e.unwritten = []
  clean : e.hub.packetPool.Clean

/-- Either all of the stream is there, or the run is over and the rest of it is lost. -/
inductive Outgoing (e : Endpoint) (accepted : List Message) (carried : Bytes) : Prop
  | live (sent queued script : List Message)
      (hsends : e.Sends accepted carried sent queued script) : Outgoing e accepted carried
  | ended (sent script : List Message) (hsent : sent <+: accepted)
      (hscript : WithKeepAlives sent script)
      (hwritten : carried ++ e.link.outgoing.held <+: script.flatMap Message.encode)
      (hended : e.connection.hasEnded = true) (hclosed : e.connection.queue.closed = true) :
      Outgoing e accepted carried

/-- What is written is part of what was accepted, with keep-alives between the frames. -/
theorem Outgoing.written (h : e.Outgoing accepted carried) :
    ∃ script, WithKeepAlives accepted script
      ∧ carried ++ e.link.outgoing.held <+: script.flatMap Message.encode := by
  cases h with
  | live sent queued script hsends =>
      refine ⟨script ++ queued, hsends.accepted_eq ▸ hsends.script_eq.append (.refl queued), ?_⟩
      rw [List.flatMap_append, ← hsends.written_eq, List.append_assoc]
      exact List.prefix_append _ _
  | ended sent script hsent hscript hwritten =>
      obtain ⟨queued, rfl⟩ := hsent
      refine ⟨script ++ queued, hscript.append (.refl queued), ?_⟩
      rw [List.flatMap_append]
      exact hwritten.trans (List.prefix_append _ _)

theorem Outgoing.all_carried (h : e.Outgoing accepted carried)
    (hrunning : e.connection.isRunning = true) (hqueue : e.connection.queue.items = [])
    (hunwritten : e.unwritten = []) (hheld : e.link.outgoing.held = []) :
    ∃ script, WithKeepAlives accepted script ∧ carried = script.flatMap Message.encode := by
  cases h with
  | live sent queued script hsends =>
      have hqueued := hsends.queued_eq
      have hwritten := hsends.written_eq
      rw [hqueue, List.map_nil, List.nil_eq, List.map_eq_nil_iff] at hqueued
      rw [hheld, hunwritten, List.append_nil, List.append_nil] at hwritten
      rw [hsends.accepted_eq, hqueued, List.append_nil]
      exact ⟨script, hsends.script_eq, hwritten⟩
  | ended _ _ _ _ _ hended => cases (Connection.isRunning_of_hasEnded hended).symm.trans hrunning

theorem Outgoing.of_keeps (h : e.Outgoing accepted carried) (hkeeps : e.KeepsOutgoing e') :
    e'.Outgoing accepted carried := by
  have hunwritten : e'.unwritten = e.unwritten := by
    rw [unwritten, hkeeps.writer_eq, ← unwritten]
  cases h with
  | live sent queued script hsends =>
      refine .live sent queued script ⟨hsends.accepted_eq, hsends.script_eq,
        hkeeps.queue_eq ▸ hsends.queued_eq, ?_, fun hstopped => ?_, hkeeps.clean hsends.clean⟩
      · rw [hunwritten, hkeeps.outgoing_eq]
        exact hsends.written_eq
      · rw [Connection.isRunning, hkeeps.status_eq] at hstopped
        rw [hunwritten]
        exact hsends.unwritten_eq hstopped
  | ended sent script hsent hscript hwritten hended hclosed =>
      refine .ended sent script hsent hscript (hkeeps.outgoing_eq ▸ hwritten) ?_
        (hkeeps.queue_eq ▸ hclosed)
      rw [Connection.hasEnded, hkeeps.status_eq]
      exact hended

theorem Outgoing.finish (h : e.Outgoing accepted carried) (result : Except Error Unit) :
    (e.finish result).Outgoing accepted carried := by
  cases h with
  | live sent queued script hsends =>
      refine .ended sent script (hsends.accepted_eq ▸ List.prefix_append _ _) hsends.script_eq ?_
        rfl rfl
      rw [← hsends.written_eq]
      exact List.prefix_append _ _
  | ended sent script hsent hscript hwritten =>
      exact .ended sent script hsent hscript hwritten rfl rfl

theorem Outgoing.start (h : e.Outgoing accepted carried) :
    ({ e with connection := e.connection.start now } : Endpoint).Outgoing accepted carried := by
  unfold Connection.start
  split
  · next hstatus =>
    cases h with
    | live sent queued script hsends =>
        have hstopped : e.connection.isRunning = false := by
          rw [Connection.isRunning, hstatus]
        have hwritten := hsends.written_eq
        rw [hsends.unwritten_eq hstopped] at hwritten
        exact .live sent queued script ⟨hsends.accepted_eq, hsends.script_eq, hsends.queued_eq,
          hwritten, fun _ => rfl, hsends.clean⟩
    | ended _ _ _ _ _ hended =>
        rw [Connection.hasEnded, hstatus] at hended
        cases hended
  · exact h

theorem Outgoing.send {late : Bool} {p : Parcel} {m : Message} (h : e.Outgoing accepted carried)
    (hpacket : p.packet.bytes = m.encode) (hsent : e.send now late p = .sent e') :
    e'.Outgoing (accepted ++ [m]) carried := by
  obtain ⟨hopen, haside⟩ := aside_of_sent hsent
  cases h with
  | ended _ _ _ _ _ _ hclosed => exact Bool.noConfusion (hopen.symm.trans hclosed)
  | live sent queued script hsends =>
      refine Outgoing.of_keeps ?_ haside.toKeepsOutgoing
      refine .live sent (queued ++ [m]) script ⟨?_, hsends.script_eq, ?_, hsends.written_eq,
        hsends.unwritten_eq, hsends.clean⟩
      · rw [hsends.accepted_eq, List.append_assoc]
      · rw [List.map_append, List.map_append, hsends.queued_eq, List.map_singleton,
          List.map_singleton, hpacket]

theorem Outgoing.transmit (h : e.Outgoing accepted carried) (hstep : e.transmit? now = some e') :
    e'.Outgoing accepted carried := by
  have hpasses := passes_transmit hstep
  cases h with
  | ended _ _ _ _ _ hended =>
      rw [transmit?, if_pos (by rw [Connection.isRunning_of_hasEnded hended]; rfl)] at hstep
      cases hstep
  | live sent queued script hsends =>
  rcases writes_of_transmit? hstep with ⟨_, hwrites, hrunning⟩ | ⟨result, rfl⟩
  · have hqueued := hsends.queued_eq
    have hwritten := hsends.written_eq
    have hunwritten : e'.connection.isRunning = false → e'.unwritten = [] := fun hstopped =>
      Bool.noConfusion (hrunning.symm.trans hstopped)
    cases hwrites with
    | packet packet hdone hqueue hnext hheld =>
        rw [hqueue, List.map_cons] at hqueued
        obtain ⟨m, queued, rfl⟩ := List.exists_cons_of_ne_nil (l := queued)
          (fun he => by rw [he] at hqueued; cases hqueued)
        rw [List.map_cons, List.cons.injEq] at hqueued
        rw [hdone, List.append_nil] at hwritten
        refine .live (sent ++ [m]) queued (script ++ [m]) ⟨?_, hsends.script_eq.append (.refl [m]),
          hqueued.2, ?_, hunwritten, hpasses.clean hsends.clean⟩
        · rw [hsends.accepted_eq, List.append_assoc, List.singleton_append]
        · rw [hheld, hwritten, hnext, hqueued.1, List.flatMap_append, List.flatMap_singleton]
    | keepAlive hdone hqueue hnext hheld =>
        rw [hdone, List.append_nil] at hwritten
        refine .live sent queued (script ++ [.keepAlive]) ⟨hsends.accepted_eq, ?_,
          hqueue ▸ hqueued, ?_, hunwritten, hpasses.clean hsends.clean⟩
        · exact List.append_nil sent ▸ hsends.script_eq.append (.keepAlive .nil)
        · rw [hheld, hwritten, hnext hsends.clean, List.flatMap_append, List.flatMap_singleton]
    | bytes bytes hqueue hrest hheld =>
        refine .live sent queued script ⟨hsends.accepted_eq, hsends.script_eq, hqueue ▸ hqueued, ?_,
          hunwritten, hpasses.clean hsends.clean⟩
        rw [hheld, ← hwritten, hrest]
        simp only [List.append_assoc]
  · exact Outgoing.finish (.live sent queued script hsends) result

theorem Outgoing.carry {link : Link} {bytes : Bytes} (h : e.Outgoing accepted carried)
    (hheld : e.link.outgoing.held = bytes ++ link.outgoing.held) :
    ({ e with link := link } : Endpoint).Outgoing accepted (carried ++ bytes) := by
  have hsame : carried ++ bytes ++ link.outgoing.held = carried ++ e.link.outgoing.held := by
    rw [hheld, List.append_assoc]
  cases h with
  | live sent queued script hsends =>
      refine .live sent queued script ⟨hsends.accepted_eq, hsends.script_eq, hsends.queued_eq, ?_,
        hsends.unwritten_eq, hsends.clean⟩
      rw [hsame]
      exact hsends.written_eq
  | ended sent script hsent hscript hwritten hended hclosed =>
      exact .ended sent script hsent hscript (hsame ▸ hwritten) hended hclosed

theorem Outgoing.receive (h : e.Outgoing accepted carried) (hstep : e.receive? now = some e') :
    e'.Outgoing accepted carried := by
  obtain ⟨e₀, hkeeps, _, rfl | ⟨result, rfl⟩⟩ := reads_of_receive? hstep
  · exact h.of_keeps hkeeps
  · exact (h.of_keeps hkeeps).finish result

/-! ### The stream that comes in -/

/-- What was dispatched are the first results of what has come, and what follows them are the
results of what is left of it. -/
structure Incoming (e : Endpoint) (limit : UInt32) (dispatched : List Message) (carried : Bytes) :
    Prop where
  limit_eq : e.connection.options.maxMessage = limit
  ready : e.connection.buffer.Ready limit
  results_eq : ∀ tail, Message.results limit (carried ++ tail) = dispatched.map .ok
    ++ Message.results limit (e.connection.buffer.pending ++ (e.link.incoming.held ++ tail))

theorem prefix_of_results {messages : List Message} {cause : Error}
    (h : dispatched.map (Except.ok (ε := Error)) <+: messages.map .ok ++ [.error cause]) :
    dispatched <+: messages := by
  -- The last result is no message.
  rcases List.prefix_concat_iff.mp h with hwhole | hbegins
  · have hlast : Except.error cause ∈ dispatched.map (Except.ok (ε := Error)) := by
      rw [hwhole]
      exact List.mem_append_right _ List.mem_cons_self
    obtain ⟨m, _, he⟩ := List.mem_map.mp hlast
    cases he
  · obtain ⟨rest, hrest⟩ := hbegins
    obtain ⟨before, after, rfl, hbefore, _⟩ := List.map_eq_append_iff.mp hrest.symm
    rw [(List.map_inj_right fun _ _ => Except.ok.inj).mp hbefore]
    exact List.prefix_append _ _

/-- Of frames that are readable nothing is dispatched but their messages, in order. -/
theorem Incoming.dispatched_prefix (h : e.Incoming limit dispatched carried)
    (hcarried : carried <+: script.flatMap Message.encode)
    (hreadable : ∀ m ∈ script, m.IsReadable limit) : dispatched <+: script := by
  obtain ⟨tail, htail⟩ := hcarried
  have hall := Message.results_flatMap_encode hreadable []
  rw [List.append_nil, ← htail, h.results_eq, Message.results_nil] at hall
  exact prefix_of_results ⟨_, hall⟩

theorem Incoming.of_keeps (h : e.Incoming limit dispatched carried) (hkeeps : e.KeepsIncoming e') :
    e'.Incoming limit dispatched carried := by
  refine ⟨hkeeps.options_eq ▸ h.limit_eq, hkeeps.buffer_eq ▸ h.ready, fun tail => ?_⟩
  rw [hkeeps.buffer_eq, hkeeps.incoming_eq]
  exact h.results_eq tail

theorem Incoming.finish (h : e.Incoming limit dispatched carried) (result : Except Error Unit) :
    (e.finish result).Incoming limit dispatched carried := ⟨h.limit_eq, h.ready, h.results_eq⟩

theorem Incoming.arrive {bytes : Bytes} {incoming : Pipe}
    (h : e.Incoming limit dispatched carried) (hroom : bytes.length ≤ e.connection.buffer.room)
    (hheld : e.link.incoming.held = bytes ++ incoming.held) :
    Incoming { e with
      connection := { e.connection with buffer := e.connection.buffer.receive bytes }
      link := { e.link with incoming := incoming } } limit dispatched carried := by
  refine ⟨h.limit_eq, h.ready.receive hroom, fun tail => ?_⟩
  rw [h.results_eq, hheld]
  simp only [ReadBuffer.receive, List.append_assoc]

theorem Incoming.come {link : Link} {bytes : Bytes} (h : e.Incoming limit dispatched carried)
    (hheld : link.incoming.held = e.link.incoming.held ++ bytes) :
    ({ e with link := link } : Endpoint).Incoming limit dispatched (carried ++ bytes) := by
  refine ⟨h.limit_eq, h.ready, fun tail => ?_⟩
  rw [List.append_assoc, h.results_eq, hheld, List.append_assoc]

theorem Incoming.read {taken : Option Message} (h : e.Incoming limit dispatched carried)
    (hreads : e.Reads taken e') : e'.Incoming limit (dispatched ++ taken.toList) carried := by
  have hsays := ReadBuffer.message_spec h.ready
  rw [← h.limit_eq] at hsays
  cases hreads with
  | nothing _ hkeeps =>
      rw [Option.toList_none, List.append_nil]
      exact h.of_keeps hkeeps
  | message m rest _ hfront hkeeps =>
      rw [hfront] at hsays
      cases hsays with
      | item _ _ hready hresults =>
      rw [h.limit_eq] at hready hresults
      refine Incoming.of_keeps ?_ hkeeps
      refine ⟨h.limit_eq, hready, fun tail => ?_⟩
      rw [h.results_eq, hresults, Option.toList_some, List.map_append, List.append_assoc]
      rfl
  | waits buffer _ hfront hkeeps =>
      rw [hfront] at hsays
      cases hsays with
      | more _ hready _ _ hresults =>
      rw [h.limit_eq] at hready hresults
      refine Incoming.of_keeps ?_ hkeeps
      refine ⟨h.limit_eq, hready, fun tail => ?_⟩
      rw [h.results_eq, hresults, Option.toList_none, List.append_nil]
  | arrives bytes incoming _ hroom hheld hkeeps =>
      rw [Option.toList_none, List.append_nil]
      exact (h.arrive hroom hheld).of_keeps hkeeps

theorem Incoming.receive (h : e.Incoming limit dispatched carried)
    (hstep : e.receive? now = some e') :
    e'.Incoming limit (dispatched ++ e.dispatches?.toList) carried := by
  obtain ⟨e₀, _, hreads, rfl | ⟨result, rfl⟩⟩ := reads_of_receive? hstep
  · exact h.read hreads
  · exact (h.read hreads).finish result

theorem Incoming.start (h : e.Incoming limit dispatched carried) :
    ({ e with connection := e.connection.start now } : Endpoint).Incoming limit dispatched
      carried := by
  unfold Connection.start
  split <;> exact ⟨h.limit_eq, h.ready, h.results_eq⟩

theorem Incoming.transmit (h : e.Incoming limit dispatched carried)
    (hstep : e.transmit? now = some e') : e'.Incoming limit dispatched carried := by
  rcases writes_of_transmit? hstep with ⟨hkeeps, _⟩ | ⟨result, rfl⟩
  · exact h.of_keeps hkeeps
  · exact h.finish result

theorem Incoming.send {late : Bool} {p : Parcel} (h : e.Incoming limit dispatched carried)
    (hsent : e.send now late p = .sent e') : e'.Incoming limit dispatched carried := by
  have hkeeps := (aside_of_sent hsent).2.toKeepsIncoming
  exact h.of_keeps ⟨hkeeps.buffer_eq, hkeeps.incoming_eq, hkeeps.options_eq⟩

/-! ### The queue -/

/-- The queue is closed when the run is over, and not before. -/
def ClosesInTime (e : Endpoint) : Prop := e.connection.queue.closed = !e.connection.isRunning

theorem closesInTime_finish (e : Endpoint) (result : Except Error Unit) :
    (e.finish result).ClosesInTime := rfl

theorem ClosesInTime.of_keeps (h : e.ClosesInTime) (hkeeps : e.KeepsOutgoing e') :
    e'.ClosesInTime := by
  unfold ClosesInTime Connection.isRunning at *
  rw [hkeeps.queue_eq, hkeeps.status_eq]
  exact h

theorem ClosesInTime.receive (h : e.ClosesInTime) (hstep : e.receive? now = some e') :
    e'.ClosesInTime := by
  obtain ⟨e₀, hkeeps, _, rfl | ⟨result, rfl⟩⟩ := reads_of_receive? hstep
  · exact h.of_keeps hkeeps
  · exact e₀.closesInTime_finish result

theorem ClosesInTime.transmit (h : e.ClosesInTime) (hstep : e.transmit? now = some e') :
    e'.ClosesInTime := by
  unfold transmit? at hstep
  simp only at hstep
  split at hstep
  · cases hstep
  cases hwriter : e.connection.writer with
  | waiting keepAlive =>
      rw [hwriter] at hstep
      simp only at hstep
      split at hstep
      · next packet queue htake =>
        cases hstep
        rw [Channel.take?] at htake
        split at htake <;> cases htake
        exact h
      · split at hstep <;> cases hstep
        exact h
  | writing packet rest deadline =>
      rw [hwriter] at hstep
      cases rest with
      | nil =>
          cases hstep
          exact h
      | cons byte rest =>
          simp only at hstep
          repeat' split at hstep
          all_goals cases hstep
          · exact e.closesInTime_finish _
          · exact h
          · exact e.closesInTime_finish _

theorem ClosesInTime.stop (hstep : e.stop? = some e') : e'.ClosesInTime := by
  unfold stop? at hstep
  split at hstep
  · cases hstep
    exact e.closesInTime_finish _
  · cases hstep

theorem ClosesInTime.send {late : Bool} {p : Parcel} (h : e.ClosesInTime)
    (hsent : e.send now late p = .sent e') : e'.ClosesInTime :=
  ClosesInTime.of_keeps (e := { e with connection := { e.connection with queue :=
    { e.connection.queue with items := e.connection.queue.items ++ [p.packet] } } }) h
    (aside_of_sent hsent).2.toKeepsOutgoing

end Endpoint

end TorrentCore
