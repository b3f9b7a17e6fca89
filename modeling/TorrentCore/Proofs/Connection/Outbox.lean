import TorrentCore.Proofs.Buffer
import TorrentCore.Proofs.Connection.Progress

/-!
# Packets of a connection

What a step of a connection is for the packets of the connection, and for the pool that they come
from. Some wait in the queue and one may be on its way onto the link. The reader has nothing to do
with them. The writer moves the first one on, makes a keep-alive when there is none, and gives a
packet back when it is written. The end of the run gives all of them back, whatever brought it
about.
-/

namespace TorrentCore

/-- The part of a connection that has to do with packets, and their pool. -/
structure Outbox where
  queue : Channel Buffer
  writer : WriterPhase
  status : RunStatus
  cancelled : Bool
  pool : BufferPool

namespace Outbox

def held (o : Outbox) : List Buffer :=
  match o.writer with
  | .writing packet _ _ => packet :: o.queue.items
  | .waiting _ => o.queue.items

def finish (o : Outbox) (result : Except Error Unit) : Outbox :=
  ⟨o.queue.shut.2, .waiting 0, .ended result, true, o.pool.giveBackAll o.held⟩

/-- A step of a connection with which it makes some packets and gives some back. -/
inductive Step (o : Outbox) : List Buffer → List Buffer → Outbox → Prop
  | keep (queue : Channel Buffer) (writer : WriterPhase) (hclosed : queue.closed = o.queue.closed)
      (hheld : held { o with queue := queue, writer := writer } = o.held) :
      Step o [] [] { o with queue := queue, writer := writer }
  | make (bytes : Bytes) (writer : WriterPhase)
      (hheld : held { o with writer := writer } = (o.pool.takeFilled bytes).1 :: o.held) :
      Step o [(o.pool.takeFilled bytes).1] []
        { o with writer := writer, pool := (o.pool.takeFilled bytes).2 }
  | giveBack (packet : Buffer) (writer : WriterPhase)
      (hheld : o.held = packet :: held { o with writer := writer }) :
      Step o [] [packet] { o with writer := writer, pool := o.pool.giveBack packet }
  | finish (result : Except Error Unit) : Step o [] o.held (o.finish result)

variable {o o' : Outbox} {made returned : List Buffer}

theorem items_of_held (h : o.held = []) : o.queue.items = [] := by
  unfold held at h
  split at h
  · cases h
  · exact h

theorem step_refl (o : Outbox) : o.Step [] [] o := .keep o.queue o.writer rfl rfl

/-- A packet that was there or was made is still there or was given back. -/
theorem Step.perm (h : o.Step made returned o') :
    (returned ++ o'.held).Perm (o.held ++ made) := by
  cases h with
  | keep queue writer _ hheld =>
      rw [hheld, List.append_nil]
      exact .refl _
  | make bytes writer hheld =>
      have hheld' : held { o with writer := writer, pool := (o.pool.takeFilled bytes).2 }
          = (o.pool.takeFilled bytes).1 :: o.held := hheld
      rw [hheld']
      exact (List.perm_append_singleton _ _).symm
  | giveBack packet writer hheld =>
      rw [hheld, List.append_nil]
      exact .refl _
  | finish result => exact .refl _

theorem Step.outstanding (h : o.Step made returned o') {more : Nat}
    (hcount : o.pool.outstanding = more + o.held.length) :
    o'.pool.outstanding = more + o'.held.length := by
  cases h with
  | keep queue writer _ hheld => rw [hheld, ← hcount]
  | make bytes writer hheld =>
      have hheld' : held { o with writer := writer, pool := (o.pool.takeFilled bytes).2 }
          = (o.pool.takeFilled bytes).1 :: o.held := hheld
      rw [hheld', List.length_cons, BufferPool.outstanding_takeFilled, hcount]
      rfl
  | giveBack packet writer hheld =>
      rw [hheld, List.length_cons] at hcount
      show (o.pool.giveBack packet).outstanding = _
      rw [BufferPool.outstanding_giveBack, hcount]
      rfl
  | finish result =>
      show (o.pool.giveBackAll o.held).outstanding = more + 0
      rw [BufferPool.outstanding_giveBackAll, hcount]
      omega

theorem Step.goesOn_or_ends (h : o.Step made returned o') :
    (o'.status = o.status ∧ o'.cancelled = o.cancelled ∧ o'.queue.closed = o.queue.closed)
      ∨ ∃ result, o' = o.finish result := by
  cases h with
  | keep queue writer hclosed _ => exact .inl ⟨rfl, rfl, hclosed⟩
  | make bytes writer _ => exact .inl ⟨rfl, rfl, rfl⟩
  | giveBack packet writer _ => exact .inl ⟨rfl, rfl, rfl⟩
  | finish result => exact .inr ⟨result, rfl⟩

end Outbox

theorem Connection.not_isRunning_of_hasEnded {c : Connection} (h : c.hasEnded = true) :
    c.isRunning = false := by
  unfold hasEnded at h
  unfold isRunning
  split at h
  · next hended => rw [hended]
  · cases h

namespace Endpoint

variable {e e' : Endpoint} {now : Nanoseconds}

def outbox (e : Endpoint) : Outbox :=
  ⟨e.connection.queue, e.connection.writer, e.connection.status, e.connection.cancelled,
    e.hub.packetPool⟩

theorem Flagged.outbox_eq {c : Connection} (h : e.connection.Flagged c) :
    outbox { e with connection := c } = e.outbox := by
  cases h
  rfl

theorem outbox_apply {m : Message} (h : e.apply now m = .ok e') : e'.outbox = e.outbox := by
  cases m with
  | keepAlive | request _ | cancel _ | piece _ _ _ =>
      cases h
      rfl
  | choke | unchoke =>
      cases h
      exact Flagged.outbox_eq (Connection.flagged_setAmChoked _ _ _)
  | interested | notInterested =>
      cases h
      exact Flagged.outbox_eq (Connection.flagged_setPeerInterested _ _ _)
  | has index =>
      cases h
      unfold applyHave
      split <;> rfl
  | bitfield bits =>
      rw [apply, applyBitfield] at h
      split at h
      · cases h
        rfl
      · cases h

theorem outbox_receive (h : e.receive? now = some e') :
    e'.outbox = e.outbox ∨ ∃ result, e'.outbox = e.outbox.finish result := by
  unfold receive? at h
  simp only at h
  split at h
  · cases h
  cases hphase : e.connection.reader with
  | decoding =>
      rw [hphase] at h
      simp only at h
      split at h
      · split at h
        · next happly =>
          cases h
          exact .inl ((outbox_apply happly).trans rfl)
        · cases h
          exact .inr ⟨_, rfl⟩
      · cases h
        exact .inr ⟨_, rfl⟩
      · cases h
        exact .inl rfl
  | reading deadline =>
      rw [hphase] at h
      simp only at h
      split at h
      · cases h
        exact .inr ⟨_, rfl⟩
      · cases h
        exact .inr ⟨_, rfl⟩
      · cases h
        exact .inr ⟨_, rfl⟩
      · cases h
        exact .inl rfl
      · split at h
        · cases h
          exact .inr ⟨_, rfl⟩
        · cases h
  | offeringBlock block | offeringUpload request =>
      rw [hphase] at h
      simp only at h
      split at h
      · cases h
        exact .inl rfl
      · cases h
      · cases h
        exact .inr ⟨_, rfl⟩

theorem exists_step_receive (h : e.receive? now = some e') :
    ∃ returned, e.outbox.Step [] returned e'.outbox := by
  rcases outbox_receive h with hsame | ⟨result, hended⟩
  · rw [hsame]
    exact ⟨[], e.outbox.step_refl⟩
  · rw [hended]
    exact ⟨_, .finish result⟩

theorem exists_step_transmit (h : e.transmit? now = some e') :
    ∃ made returned, e.outbox.Step made returned e'.outbox := by
  unfold transmit? at h
  simp only at h
  split at h
  · cases h
  split at h
  · next keepAlive hwriter =>
    have hheld : e.outbox.held = e.connection.queue.items := by
      rw [Outbox.held]
      simp only [outbox, hwriter]
    split at h
    · next packet queue htake =>
      cases h
      unfold Channel.take? at htake
      split at htake
      · cases htake
      next hitems =>
      cases htake
      exact ⟨[], [], .keep _ _ rfl (hheld.trans hitems).symm⟩
    · next htake =>
      split at h
      · cases h
        exact ⟨_, [], .make Message.keepAlive.encode _ (by rw [hheld]; rfl)⟩
      · cases h
  · next packet deadline hwriter =>
    cases h
    refine ⟨[], [packet], .giveBack packet _ ?_⟩
    rw [Outbox.held]
    simp only [outbox, hwriter]
    rfl
  · next packet rest deadline _ hwriter =>
    split at h
    · cases h
      exact ⟨[], _, .finish _⟩
    · split at h
      · cases h
        refine ⟨[], [], .keep _ _ rfl ?_⟩
        rw [Outbox.held, Outbox.held]
        simp only [outbox, hwriter]
      · split at h
        · cases h
          exact ⟨[], _, .finish _⟩
        · cases h

theorem exists_step_stop (h : e.stop? = some e') :
    ∃ returned, e.outbox.Step [] returned e'.outbox := by
  unfold stop? at h
  split at h
  · cases h
    exact ⟨_, .finish _⟩
  · cases h

end Endpoint

end TorrentCore
