import TorrentCore.Proofs.Connection.Attitude
import TorrentCore.Proofs.Swarm.Correspondence

/-!
# Two ends that agree on choking and interest

Each end of a socket keeps flags about itself and flags about the other end. The first are those of
the messages its queue has accepted, the second those of the messages its reader has taken, and this
is kept by every turn, also by one that is refused. Of what was accepted at one end the other has
taken all as soon as nothing waits and nothing is under way. Then they agree.

What may change a flag has to be sent as a message for that: a packet that is sent as such changes
no flag.
-/

namespace TorrentCore

namespace Party

def Turn.time? : Turn → Option Nanoseconds
  | .start now | .send now _ _ _ _ | .receive now | .transmit now => some now
  | .readAhead | .stop => none

/-- What would change a flag is sent as a message. -/
def Turn.isFrank : Turn → Bool
  | .send _ _ m noted _ => noted || m.isNeutral
  | _ => true

def bearing (p : Party) : Bearing := p.endpoint.connection.bearing

structure Accords (p : Party) : Prop where
  own_eq : p.bearing.own = .ofMessages p.accepted
  theirs_eq : p.bearing.theirs = .ofMessages p.dispatched

variable {p p' : Party} {t : Turn}

theorem New.accords (h : p.New) : p.Accords := by
  cases h
  exact ⟨rfl, rfl⟩

theorem follows_turn (h : p.turn? t = some p') : ∃ sent taken,
    p.bearing.Follows p'.bearing t.time? sent taken
      ∧ p'.dispatched = p.dispatched ++ taken.toList
      ∧ (t.isFrank = true → Attitude.ofMessages p'.accepted
        = sent.elim (.ofMessages p.accepted) (Attitude.ofMessages p.accepted).next) := by
  have hquiet : ∀ e : Endpoint, e.connection.bearing = p.bearing → ∃ sent taken,
      p.bearing.Follows e.connection.bearing t.time? sent taken
        ∧ p.dispatched = p.dispatched ++ taken.toList
        ∧ (t.isFrank = true → Attitude.ofMessages p.accepted
          = sent.elim (.ofMessages p.accepted) (Attitude.ofMessages p.accepted).next) := by
    intro e he
    rw [he]
    exact ⟨none, none, p.bearing.follows_refl _, (List.append_nil _).symm, fun _ => rfl⟩
  cases t with
  | start now =>
      cases h
      exact hquiet _ (Endpoint.bearing_start p.endpoint.connection)
  | send now packet m noted late =>
      rw [turn?] at h
      split at h
      · split at h
        · next e hsent =>
          cases h
          refine ⟨_, none, Endpoint.follows_sent hsent, (List.append_nil _).symm, fun hfrank => ?_⟩
          rw [Attitude.ofMessages_append_singleton]
          cases noted with
          | true => rfl
          | false => exact Attitude.next_of_isNeutral _ hfrank
        · cases h
        · next e hrefused =>
          cases h
          exact hquiet e (congrArg Connection.bearing (Endpoint.fate_send_refused hrefused).1)
      · cases h
  | readAhead =>
      rw [turn?] at h
      split at h
      · split at h
        · cases h
          exact hquiet _ rfl
        · cases h
      · cases h
  | receive now =>
      obtain ⟨e, hstep, rfl⟩ := Option.map_eq_some_iff.mp h
      exact ⟨none, _, Endpoint.follows_receive hstep, rfl, fun _ => rfl⟩
  | transmit now =>
      obtain ⟨e, hstep, rfl⟩ := Option.map_eq_some_iff.mp h
      exact hquiet e (Endpoint.bearing_transmit hstep)
  | stop =>
      obtain ⟨e, hstep, rfl⟩ := Option.map_eq_some_iff.mp h
      exact hquiet e (Endpoint.bearing_stop hstep)

theorem Accords.turn (h : p.Accords) (hfrank : t.isFrank = true) (ht : p.turn? t = some p') :
    p'.Accords := by
  obtain ⟨sent, taken, hfollows, hdispatched, haccepted⟩ := follows_turn ht
  constructor
  · rw [hfollows.own_eq, haccepted hfrank, h.own_eq]
  · rw [hfollows.theirs_eq, hdispatched, h.theirs_eq]
    cases taken with
    | none => simp
    | some m => simp

end Party

namespace Correspondence

def Move.time? : Move → Option Nanoseconds
  | .turn _ t => t.time?
  | .network _ _ => none

def Move.isFrank : Move → Bool
  | .turn _ t => t.isFrank
  | .network _ _ => true

/-- From these two parties to those, where the flags are changed by nothing but messages: what is
done aside leaves them and the notes about them alone. -/
inductive FrankRun (c : Correspondence) : Correspondence → Prop
  | start : FrankRun c c
  | moved {d d' : Correspondence} {m : Move} (hrun : FrankRun c d) (hfrank : m.isFrank = true)
      (hmove : d.move? m = some d') : FrankRun c d'
  | aside {d : Correspondence} {e : Endpoint} (hrun : FrankRun c d) (side : Side)
      (haside : (d side).endpoint.Aside e)
      (hsame : e.connection.bearing = (d side).bearing) :
      FrankRun c (d.put side { d side with endpoint := e })

/-- Nothing that was sent on one side waits or is under way: not in the queue or the writer, not on
the socket, and not in the buffer of the reader on the other side. -/
structure Quiet (c : Correspondence) (side : Side) : Prop where
  queue_eq : (c side).endpoint.connection.queue.items = []
  unwritten_eq : (c side).endpoint.unwritten = []
  outgoing_eq : (c side).endpoint.link.outgoing.held = []
  incoming_eq : (c side.other).endpoint.link.incoming.held = []
  pending_eq : (c side.other).endpoint.connection.buffer.pending = []

instance (c : Correspondence) (side : Side) : Decidable (c.Quiet side) :=
  decidable_of_iff ((c side).endpoint.connection.queue.items = [] ∧ (c side).endpoint.unwritten = []
      ∧ (c side).endpoint.link.outgoing.held = [] ∧ (c side.other).endpoint.link.incoming.held = []
      ∧ (c side.other).endpoint.connection.buffer.pending = [])
    ⟨fun ⟨h₁, h₂, h₃, h₄, h₅⟩ => ⟨h₁, h₂, h₃, h₄, h₅⟩, fun ⟨h₁, h₂, h₃, h₄, h₅⟩ =>
      ⟨h₁, h₂, h₃, h₄, h₅⟩⟩

variable {c d : Correspondence} {side : Side}

theorem FrankRun.toRun (h : FrankRun c d) : Run c d := by
  induction h with
  | start => exact .start
  | moved _ _ hmove ih => exact ih.moved hmove
  | aside _ side haside _ ih => exact ih.aside side haside

theorem same_of_pass {d' : Correspondence} {who : Side} {passage : Passage}
    (h : d.pass? who passage = some d') (side : Side) : (d' side).bearing = (d side).bearing
      ∧ (d' side).accepted = (d side).accepted ∧ (d' side).dispatched = (d side).dispatched := by
  obtain ⟨⟨near, far⟩, _, rfl⟩ := Option.map_eq_some_iff.mp h
  simp only
  rcases Side.eq_or_other_eq who side with rfl | rfl
  · rw [put_of_ne (Side.ne_other who), put_self]
    exact ⟨rfl, rfl, rfl⟩
  · rw [put_self]
    exact ⟨rfl, rfl, rfl⟩

theorem dated_move {d' : Correspondence} {m : Move} (h : d.move? m = some d') (side : Side) :
    (d side).bearing.Dated (d' side).bearing m.time? := by
  cases m with
  | turn who t =>
      obtain ⟨p, ht, rfl⟩ := Option.map_eq_some_iff.mp h
      by_cases hwho : side = who
      · subst hwho
        obtain ⟨sent, taken, hfollows, _⟩ := Party.follows_turn ht
        rw [put_self]
        exact hfollows.dated
      · rw [put_of_ne hwho]
        exact (d side).bearing.dated_refl _
  | network who passage =>
      rw [(same_of_pass h side).1]
      exact (d side).bearing.dated_refl _

theorem accords_move {d' : Correspondence} {m : Move} (h : ∀ side, (d side).Accords)
    (hfrank : m.isFrank = true) (hmove : d.move? m = some d') (side : Side) :
    (d' side).Accords := by
  cases m with
  | turn who t =>
      obtain ⟨p, ht, rfl⟩ := Option.map_eq_some_iff.mp hmove
      by_cases hwho : side = who
      · subst hwho
        rw [put_self]
        exact (h side).turn hfrank ht
      · rw [put_of_ne hwho]
        exact h side
  | network who passage =>
      obtain ⟨hbearing, haccepted, hdispatched⟩ := same_of_pass hmove side
      constructor
      · rw [hbearing, haccepted, (h side).own_eq]
      · rw [hbearing, hdispatched, (h side).theirs_eq]

theorem FrankRun.accords (hnew : ∀ side, (c side).New) (h : FrankRun c d) (side : Side) :
    (d side).Accords := by
  induction h generalizing side with
  | start => exact (hnew side).accords
  | moved _ hfrank hmove ih => exact accords_move ih hfrank hmove side
  | @aside d e _ who _ hsame ih =>
      by_cases hwho : side = who
      · subst hwho
        rw [put_self]
        exact ⟨(congrArg Bearing.own hsame).trans (ih side).own_eq,
          (congrArg Bearing.theirs hsame).trans (ih side).theirs_eq⟩
      · rw [put_of_ne hwho]
        exact ih side

/-- All that was accepted on one side has been taken on the other, with keep-alives. -/
theorem taken_of_quiet (hnew : ∀ side, (c side).New) (hrun : Run c d)
    (hrunning : (d side).endpoint.connection.isRunning = true) (hquiet : d.Quiet side)
    (hfits : ∀ m ∈ (d side).accepted, m.body.length < 4294967296) :
    WithKeepAlives (d side).accepted (d side.other).dispatched := by
  have hflows := (flows_of_new hnew).run hrun
  have hincoming := (hflows side.other).incoming
  rw [Side.other_other] at hincoming
  obtain ⟨script, hscript, hcarried⟩ := (hflows side).outgoing.all_carried hrunning
    hquiet.queue_eq hquiet.unwritten_eq hquiet.outgoing_eq
  have hall := hincoming.dispatched_eq_of_length_lt hcarried
    (hscript.forall_of_keepAlive hfits (by decide)) hquiet.incoming_eq hquiet.pending_eq
  rwa [hall]

/-- Whatever two connections at a socket send each other, and in whatever order that is accepted,
refused and delivered: once nothing of what one side has sent waits or is under way, the two sides
agree on whether that side chokes and wants something. A message that is refused changes no flag.
And the time of a change is noted just when a flag has changed. -/
theorem attitudes_agree (hnew : ∀ side, (c side).New) (hrun : FrankRun c d) (side : Side) :
    ((d side).endpoint.connection.isRunning = true → d.Quiet side →
        (∀ m ∈ (d side).accepted, m.body.length < 4294967296) →
      (d side).endpoint.connection.peerChoked = (d side.other).endpoint.connection.amChoked
        ∧ (d side).endpoint.connection.amInterested
          = (d side.other).endpoint.connection.peerInterested)
      ∧ (∀ now late p cause e, (d side).endpoint.send now late p = .refused cause e →
        e.connection = (d side).endpoint.connection)
      ∧ ∀ m d', d.move? m = some d'
        → ∀ side', (d side').bearing.Dated (d' side').bearing m.time? := by
  refine ⟨fun hrunning hquiet hfits => ?_, ?_, ?_⟩
  · have htaken := taken_of_quiet hnew hrun.toRun hrunning hquiet hfits
    have hsame : (d side).bearing.own = (d side.other).bearing.theirs := by
      rw [(hrun.accords hnew side).own_eq, (hrun.accords hnew side.other).theirs_eq,
        Attitude.ofMessages_script htaken]
    exact ⟨congrArg Attitude.choking hsame, congrArg Attitude.interested hsame⟩
  · intro now late p cause e hrefused
    exact (Endpoint.fate_send_refused hrefused).1
  · intro m d' hmove side'
    exact dated_move hmove side'

theorem frankRun_of_run? {d' : Correspondence} {moves : List Move} (hrun : FrankRun c d)
    (hfrank : moves.all Move.isFrank = true) (h : run? moves d = some d') : FrankRun c d' := by
  induction moves generalizing d with
  | nil =>
      cases h
      exact hrun
  | cons m moves ih =>
      rw [List.all_cons, Bool.and_eq_true] at hfrank
      obtain ⟨next, hnext, hrest⟩ := Option.bind_eq_some_iff.mp h
      exact ih (hrun.moved hfrank.1 hnext) hfrank.2 hrest

/-- One side unchokes the other twice and then wants something. The other unchokes as well, which
still waits in its queue at the end. -/
def oneSideDone : List Move :=
  let send (side : Side) (m : Message) : Move := .turn side (.send 0 ⟨0, m.encode⟩ m true false)
  [.turn .left (.start 0), .turn .right (.start 0), send .left .unchoke, send .left .unchoke,
    send .right .unchoke, send .left .interested]
    ++ List.replicate 8 (.turn .left (.transmit 3)) ++ [.network .left (.carry 15)]
    ++ List.replicate 5 (.turn .right (.receive 7))

/-- At the end the sides agree on what the first has said, and the second has noted when. -/
theorem attitudes_agree_oneSideDone : ∃ d, FrankRun fresh d
    ∧ (d .left).endpoint.connection.isRunning = true ∧ d.Quiet .left ∧ ¬ d.Quiet .right
    ∧ (d .right).endpoint.connection.amChoked = false
    ∧ (d .right).endpoint.connection.peerInterested = true
    ∧ (d .right).endpoint.connection.lastChokeChange = some 7 := by
  have hdone : (fresh.run? oneSideDone).any (fun d =>
      decide ((d .left).endpoint.connection.isRunning = true ∧ d.Quiet .left ∧ ¬ d.Quiet .right
        ∧ (d .left).accepted = [.unchoke, .unchoke, .interested]
        ∧ (d .left).endpoint.connection.peerChoked = false
        ∧ (d .left).endpoint.connection.amInterested = true
        ∧ (d .right).endpoint.connection.lastChokeChange = some 7)) = true := by
    decide +kernel
  obtain ⟨d, hmoves, htest⟩ := (Option.any_eq_true _ _).mp hdone
  obtain ⟨hrunning, hquiet, hbusy, haccepted, hunchoked, hinterested, hnoted⟩ :=
    of_decide_eq_true htest
  have hrun := frankRun_of_run? .start (by decide) hmoves
  have hnew : ∀ side, (fresh side).New := fun _ =>
    .new _ _ _ {} _ _ _ (BufferPool.clean_make 16 4)
  obtain ⟨hagree, _⟩ := attitudes_agree hnew hrun .left
  obtain ⟨hchoke, hinterest⟩ := hagree hrunning hquiet (by rw [haccepted]; decide)
  refine ⟨d, hrun, hrunning, hquiet, hbusy, ?_, ?_, hnoted⟩
  · rw [← hunchoked]
    exact hchoke.symm
  · rw [← hinterested]
    exact hinterest.symm

end Correspondence

end TorrentCore
