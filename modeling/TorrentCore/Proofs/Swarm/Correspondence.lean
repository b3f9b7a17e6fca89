import TorrentCore.Proofs.Connection.Streams
import TorrentCore.Proofs.Swarm.Talk

/-!
# Two connections joined by a socket

On each side of a socket there is a connection at work. Whoever likes puts messages into its queue,
its reader and its writer take their steps, each at any time, and it may be told to end or fail at
any moment; the network carries what was written, in pieces of any size. Whatever else the sessions
do to a connection leaves its streams alone, and may happen at any time as well.

What is carried away from one side is what its writer wrote, and what has come to the other side is
what was carried. So the streams of the two connections fit together in every run, and the messages
that were accepted on one side are dispatched on the other one by one and in their order, as far as
they come.
-/

namespace TorrentCore

/-- One side of a socket, with what its queue has accepted, what its reader has dispatched, and what
the network has carried away from it, each since the beginning. -/
structure Party where
  endpoint : Endpoint
  accepted : List Message
  dispatched : List Message
  carried : Bytes

namespace Party

def written (p : Party) : Bytes := p.carried ++ p.endpoint.link.outgoing.held

inductive Turn where
  | start (now : Nanoseconds)
  /-- The packet of a message is offered to the queue. The flags are changed by a message that was
  sent as such, and not by one that was sent as a packet. -/
  | send (now : Nanoseconds) (packet : Buffer) (m : Message) (noted late : Bool)
  /-- More than the handshake was read off the link before the start. -/
  | readAhead
  | receive (now : Nanoseconds)
  | transmit (now : Nanoseconds)
  | stop

def turn? (p : Party) : Turn → Option Party
  | .start now => some { p with endpoint :=
      { p.endpoint with connection := p.endpoint.connection.start now } }
  | .send now packet m noted late =>
    if packet.bytes = m.encode then
      match p.endpoint.send now late ⟨packet, if noted then some m else none⟩ with
      | .sent e => some { p with endpoint := e, accepted := p.accepted ++ [m] }
      | .full => none
      | .refused _ e => some { p with endpoint := e }
    else none
  | .readAhead => match p.endpoint.connection.status with
    | .notStarted => match p.endpoint.link.incoming.read? p.endpoint.connection.buffer.room with
      | some (.data bytes, incoming) => some { p with endpoint := { p.endpoint with
          connection := { p.endpoint.connection with
            buffer := p.endpoint.connection.buffer.receive bytes }
          link := { p.endpoint.link with incoming := incoming } } }
      | _ => none
    | _ => none
  | .receive now => (p.endpoint.receive? now).map fun e => { p with
      endpoint := e
      dispatched := p.dispatched ++ p.endpoint.dispatches?.toList }
  | .transmit now => (p.endpoint.transmit? now).map fun e => { p with endpoint := e }
  | .stop => p.endpoint.stop?.map fun e => { p with endpoint := e }

inductive New : Party → Prop
  | new (address : Address) (peerId : Identifier) (pieceCount : Nat) (options : ConnectionOptions)
      (now : Nanoseconds) (hub : Hub) (capacity : Nat) (hclean : hub.packetPool.Clean) :
      New ⟨⟨.make address peerId pieceCount options (.forMessages options.maxMessage) now, hub,
        .make capacity⟩, [], [], []⟩

/-- The streams of a party, where `coming` is what was carried to it. -/
structure Flows (p : Party) (limit : UInt32) (coming : Bytes) : Prop where
  outgoing : p.endpoint.Outgoing p.accepted p.carried
  incoming : p.endpoint.Incoming limit p.dispatched coming

def limit (p : Party) : UInt32 := p.endpoint.connection.options.maxMessage

variable {p p' : Party} {limit : UInt32} {coming : Bytes}

theorem New.flows (h : p.New) : p.carried = [] ∧ p.Flows p.limit [] := by
  obtain ⟨address, peerId, pieceCount, options, now, hub, capacity, hclean⟩ := h
  refine ⟨rfl, ⟨.live [] [] [] ⟨rfl, .nil, rfl, rfl, fun _ => rfl, hclean⟩, rfl, ?_, fun _ => rfl⟩⟩
  exact ReadBuffer.ready_forMessages (UInt32.le_iff_toNat_le.mpr (Nat.le_refl _))

theorem Flows.aside {e : Endpoint} (h : p.Flows limit coming) (haside : p.endpoint.Aside e) :
    Flows { p with endpoint := e } limit coming :=
  ⟨h.outgoing.of_keeps haside.toKeepsOutgoing, h.incoming.of_keeps haside.toKeepsIncoming⟩

theorem Flows.turn {t : Turn} (h : p.Flows limit coming) (ht : p.turn? t = some p') :
    p'.carried = p.carried ∧ p'.Flows limit coming := by
  cases t with
  | start now =>
      cases ht
      exact ⟨rfl, h.outgoing.start, h.incoming.start⟩
  | send now packet m noted late =>
      rw [turn?] at ht
      split at ht
      · next hpacket =>
        split at ht
        · next e hsent =>
          cases ht
          exact ⟨rfl, h.outgoing.send hpacket hsent, h.incoming.send hsent⟩
        · cases ht
        · next e hrefused =>
          cases ht
          exact ⟨rfl, h.aside (Endpoint.aside_of_refused hrefused)⟩
      · cases ht
  | readAhead =>
      rw [turn?] at ht
      split at ht
      · split at ht
        · next bytes incoming hread =>
          cases ht
          obtain ⟨hroom, hheld⟩ := Pipe.held_of_read? hread
          exact ⟨rfl, h.outgoing.of_keeps ⟨rfl, rfl, rfl, rfl, id⟩, h.incoming.arrive hroom hheld⟩
        · cases ht
      · cases ht
  | receive now =>
      obtain ⟨e, hstep, rfl⟩ := Option.map_eq_some_iff.mp ht
      exact ⟨rfl, h.outgoing.receive hstep, h.incoming.receive hstep⟩
  | transmit now =>
      obtain ⟨e, hstep, rfl⟩ := Option.map_eq_some_iff.mp ht
      exact ⟨rfl, h.outgoing.transmit hstep, h.incoming.transmit hstep⟩
  | stop =>
      obtain ⟨e, hstep, rfl⟩ := Option.map_eq_some_iff.mp ht
      rw [Endpoint.stop?] at hstep
      split at hstep
      · cases hstep
        exact ⟨rfl, h.outgoing.finish _, h.incoming.finish _⟩
      · cases hstep

end Party

abbrev Correspondence := Side → Party

def Passage.cargo (near : Link) : Passage → Bytes
  | .carry count => near.outgoing.held.take count
  | _ => []

theorem Passage.held_cargo {near far near' far' : Link} {passage : Passage}
    (h : passage.pass? near far = some (near', far')) :
    near.outgoing.held = passage.cargo near ++ near'.outgoing.held
      ∧ far'.incoming.held = far.incoming.held ++ passage.cargo near := by
  cases passage with
  | carry count =>
      rw [Passage.pass?] at h
      split at h <;> cases h
      refine ⟨?_, Pipe.held_append _ _⟩
      rw [Pipe.held_drop, cargo, List.take_append_drop]
  | endOfStream | broken =>
      rw [Passage.pass?] at h
      split at h <;> cases h
      exact ⟨rfl, (List.append_nil _).symm⟩

namespace Correspondence

def put (c : Correspondence) (side : Side) (p : Party) : Correspondence := fun side' =>
  if side' = side then p else c side'

def pass? (c : Correspondence) (side : Side) (passage : Passage) : Option Correspondence :=
  (passage.pass? (c side).endpoint.link (c side.other).endpoint.link).map fun (near, far) =>
    (c.put side { c side with
      endpoint := { (c side).endpoint with link := near }
      carried := (c side).carried ++ passage.cargo (c side).endpoint.link }).put side.other
      { c side.other with endpoint := { (c side.other).endpoint with link := far } }

inductive Move where
  | turn (side : Side) (t : Party.Turn)
  | network (side : Side) (passage : Passage)

def move? (c : Correspondence) : Move → Option Correspondence
  | .turn side t => ((c side).turn? t).map (c.put side)
  | .network side passage => c.pass? side passage

inductive Run (c : Correspondence) : Correspondence → Prop
  | start : Run c c
  | moved {d d' : Correspondence} {m : Move} (hrun : Run c d) (hmove : d.move? m = some d') : Run c d'
  | aside {d : Correspondence} {e : Endpoint} (hrun : Run c d) (side : Side)
      (haside : (d side).endpoint.Aside e) : Run c (d.put side { d side with endpoint := e })

/-! ### What every move keeps -/

/-- The streams of both parties, where what comes to a party is what was carried away from the
other. -/
def Flows (c : Correspondence) (limit : Side → UInt32) : Prop :=
  ∀ side, (c side).Flows (limit side) (c side.other).carried

variable {c c' d : Correspondence} {limit : Side → UInt32}

@[simp] theorem put_self (c : Correspondence) (side : Side) (p : Party) : c.put side p side = p :=
  if_pos rfl

theorem put_of_ne {side side' : Side} (h : side' ≠ side) (c : Correspondence) (p : Party) :
    c.put side p side' = c side' := if_neg h

theorem Flows.put {side : Side} {p : Party} (h : c.Flows limit)
    (hcarried : p.carried = (c side).carried)
    (hp : p.Flows (limit side) (c side.other).carried) : (c.put side p).Flows limit := by
  intro side'
  rcases Side.eq_or_other_eq side side' with rfl | rfl
  · rw [put_self, put_of_ne (Side.other_ne side)]
    exact hp
  · rw [put_of_ne (Side.other_ne side), Side.other_other, put_self, hcarried]
    have hother := h side.other
    rwa [Side.other_other] at hother

theorem Flows.pass {side : Side} {passage : Passage} (h : c.Flows limit)
    (hpass : c.pass? side passage = some c') : c'.Flows limit := by
  obtain ⟨⟨near, far⟩, hlinks, rfl⟩ := Option.map_eq_some_iff.mp hpass
  obtain ⟨hout, hin⟩ := Passage.held_cargo hlinks
  have hpasses := Link.passes_of_pass? hlinks
  have hnear := h side
  have hfar := h side.other
  rw [Side.other_other] at hfar
  intro side'
  simp only
  rcases Side.eq_or_other_eq side side' with rfl | rfl
  · rw [put_of_ne (Side.ne_other side), put_self, put_self]
    exact ⟨hnear.outgoing.carry hout, hnear.incoming.of_keeps ⟨rfl, hpasses.incoming_eq, rfl⟩⟩
  · rw [put_self, Side.other_other, put_of_ne (Side.ne_other side), put_self]
    exact ⟨hfar.outgoing.of_keeps ⟨rfl, rfl, hpasses.outgoing_eq, rfl, id⟩, hfar.incoming.come hin⟩

theorem Flows.run (h : c.Flows limit) (hrun : Run c d) : d.Flows limit := by
  induction hrun with
  | start => exact h
  | @moved d d' m _ hmove ih =>
      cases m with
      | turn side t =>
          obtain ⟨p, ht, rfl⟩ := Option.map_eq_some_iff.mp hmove
          obtain ⟨hcarried, hp⟩ := (ih side).turn ht
          exact ih.put hcarried hp
      | network side passage => exact ih.pass hmove
  | aside _ side haside ih => exact ih.put rfl ((ih side).aside haside)

theorem flows_of_new (h : ∀ side, (c side).New) : c.Flows fun side => (c side).limit := by
  intro side
  rw [(h side.other).flows.1]
  exact (h side).flows.2

/-- Whatever happens to two connections at a socket, what has been written on one side is the
beginning of the frames of what was accepted there, in that order, with whole keep-alives between
them. If these messages can be read on the other side, what has been dispatched there is, but for
keep-alives, the beginning of what was accepted. -/
theorem delivered_in_order (hnew : ∀ side, (c side).New) (hrun : Run c d) (side : Side) :
    ∃ script, WithKeepAlives (d side).accepted script
      ∧ (d side).written <+: script.flatMap Message.encode
      ∧ ((∀ m ∈ (d side).accepted, m.IsReadable (c side.other).limit) →
        (d side.other).dispatched <+: script
          ∧ (d side.other).dispatched.filter (· ≠ .keepAlive)
            <+: (d side).accepted.filter (· ≠ .keepAlive)) := by
  have hflows := (flows_of_new hnew).run hrun
  have hincoming := (hflows side.other).incoming
  rw [Side.other_other] at hincoming
  obtain ⟨script, hscript, hwritten⟩ := (hflows side).outgoing.written
  refine ⟨script, hscript, hwritten, fun hreadable => ?_⟩
  have hbegins := hincoming.dispatched_prefix ((List.prefix_append _ _).trans hwritten)
    (hscript.forall_of_keepAlive hreadable (Message.isReadable_keepAlive _))
  exact ⟨hbegins, hscript.filter_eq ▸ hbegins.filter _⟩

def run? : List Move → Correspondence → Option Correspondence
  | [], c => some c
  | m :: rest, c => (c.move? m).bind (run? rest)

theorem run_of_run? {c d d' : Correspondence} {moves : List Move} (hrun : Run c d)
    (h : run? moves d = some d') : Run c d' := by
  induction moves generalizing d with
  | nil =>
      cases h
      exact hrun
  | cons m moves ih =>
      obtain ⟨next, hnext, hrest⟩ := Option.bind_eq_some_iff.mp h
      exact ih (hrun.moved hnext) hrest

def fresh : Correspondence := fun _ =>
  ⟨⟨.make ⟨.v4 [127, 0, 0, 1], 6881⟩ .zero 8 {} (.forMessages defaultMaxMessage) 0,
    ⟨.make 4, .make 4, .zero 8, .make 16 4, .make 16 4⟩, .make 4096⟩, [], [], []⟩

/-- Two messages are written, then nothing for two minutes, then another one. Of the bytes all but
the last arrive, in two parts, and the first part ends in the middle of a frame. -/
def lateBlock : List Move :=
  let send (m : Message) : Move := .turn .left (.send 0 ⟨0, m.encode⟩ m true false)
  let writePacket (now : Nanoseconds) : List Move :=
    List.replicate 3 (.turn .left (.transmit now))
  let read (count : Nat) : List Move := List.replicate count (.turn .right (.receive 0))
  [.turn .left (.start 0), .turn .right (.start 0), send (.has 3), send .unchoke] ++ writePacket 0
    ++ writePacket 0 ++ writePacket 120000000000 ++ [send (.piece 0 0 [7])]
    ++ writePacket 120000000000 ++ [.network .left (.carry 7)] ++ read 2
    ++ [.network .left (.carry 24)] ++ read 6

/-- The first two messages have been dispatched, and the keep-alive between them and the third. -/
theorem delivered_in_order_lateBlock : ∃ d, Run fresh d
    ∧ (d .left).accepted = [.has 3, .unchoke, .piece 0 0 [7]]
    ∧ (d .right).dispatched = [.has 3, .unchoke, .keepAlive]
    ∧ ∃ script, WithKeepAlives (d .left).accepted script
      ∧ (d .left).written <+: script.flatMap Message.encode ∧ (d .right).dispatched <+: script := by
  have hdone : (fresh.run? lateBlock).any (fun d =>
      decide ((d .left).accepted = [.has 3, .unchoke, .piece 0 0 [7]]
        ∧ (d .right).dispatched = [.has 3, .unchoke, .keepAlive])) = true := by
    decide +kernel
  obtain ⟨d, hmoves, htest⟩ := (Option.any_eq_true _ _).mp hdone
  obtain ⟨haccepted, hdispatched⟩ := of_decide_eq_true htest
  have hrun := run_of_run? .start hmoves
  have hnew : ∀ side, (fresh side).New := fun _ =>
    .new _ _ _ {} _ _ _ (BufferPool.clean_make 16 4)
  obtain ⟨script, hscript, hwritten, hread⟩ := delivered_in_order hnew hrun .left
  refine ⟨d, hrun, haccepted, hdispatched, script, hscript, hwritten, (hread ?_).1⟩
  intro m hm
  rw [haccepted] at hm
  simp only [List.mem_cons, List.not_mem_nil, or_false] at hm
  rcases hm with rfl | rfl | rfl <;> rfl

end Correspondence

end TorrentCore
