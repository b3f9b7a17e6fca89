import TorrentCore.Proofs.Session.Handling

/-!
# A session at rest

A session rests if no step of it is possible and none will ever be, as long as nothing comes from
outside, but for what keeps connections alive: a writer that has nothing to write sends a keep-alive
from time to time, and a reader gives its peer up when not even a keep-alive has come for longer.
-/

namespace TorrentCore

def ReaderPhase.isReading : ReaderPhase → Bool
  | .reading _ => true
  | _ => false

def WriterPhase.isWaiting : WriterPhase → Bool
  | .waiting _ => true
  | _ => false

/-- A step of a connection over which nothing else is said or heard. -/
inductive Member.KeepsAlive (now : Nanoseconds) (number : Nat) (m : Member) : Session.Action → Prop
  | sends (due : Nanoseconds) (hwriter : m.connection.writer = .waiting due)
      (hqueue : m.connection.queue.items = []) : KeepsAlive now number m (.transmit number)
  | missed (deadline : Nanoseconds) (hreader : m.connection.reader = .reading deadline)
      (hlink : m.link.incoming.read? m.connection.buffer.room = none)
      (hover : deadline.ceilMilliseconds ≤ now) : KeepsAlive now number m (.receive number)

/-- The connection is at work with nothing to say or to hear, and its requester has given up. -/
def Member.IsSilent (m : Member) : Prop :=
  m.connection.isRunning = true ∧ m.connection.cancelled = false ∧ m.requester = .retired
    ∧ m.connection.reader.isReading = true ∧ m.link.incoming.read? m.connection.buffer.room = none
    ∧ m.connection.writer.isWaiting = true ∧ m.connection.queue.items = []

instance (m : Member) : Decidable m.IsSilent := inferInstanceAs (Decidable (_ ∧ _))

namespace Session

variable {s s' : Session} {now : Nanoseconds} {number : Nat} {m : Member}

def Rests (s : Session) : Prop := ∀ now action s', s.act? now action = some s' →
  ∃ number m, s.members.get? number = some m ∧ m.KeepsAlive now number action

theorem Rests.requester (h : s.Rests) (hm : s.members.get? number = some m)
    (hrunning : m.connection.isRunning = true) (hsaid : m.requester.isSending = false) :
    m.requester = .retired ∨ (m.requester = .awaitingPieces ∧ m.connection.knowsPieces = false)
      ∨ (m.requester = .awaitingUnchoke ∧ m.connection.amChoked = true) := by
  have hnone : ∀ now, s.request? now number [] = none := by
    intro now
    by_contra hstep
    obtain ⟨s', hs'⟩ := Option.ne_none_iff_exists'.mp hstep
    obtain ⟨_, _, _, hkeeps⟩ := h now (.request number []) s' hs'
    cases hkeeps
  simp only [request?, hm, hrunning, Bool.not_true, Bool.false_eq_true, if_false] at hnone
  cases hphase : m.requester with
  | retired => exact Or.inl rfl
  | awaitingPieces =>
      have hwaits := hnone 0
      simp only [hphase, ite_eq_right_iff, reduceCtorEq, imp_false, Bool.not_eq_true] at hwaits
      exact Or.inr (Or.inl ⟨rfl, hwaits⟩)
  | awaitingUnchoke =>
      have hwaits := hnone 0
      simp only [hphase, ite_eq_left_iff, reduceCtorEq, imp_false, Bool.not_eq_true,
        Bool.not_eq_false] at hwaits
      exact Or.inr (Or.inr ⟨rfl, hwaits⟩)
  | sending p after =>
      rw [hphase] at hsaid
      cases hsaid
  | asking index deadline cursor =>
      have hwaits := hnone 0
      rw [hphase] at hwaits
      simp only at hwaits
      split at hwaits <;> cases hwaits
  | awaitingPiece index deadline since =>
      have hwaits := hnone deadline.ceilMilliseconds
      rw [hphase] at hwaits
      simp only [Nat.le_refl, if_true] at hwaits
      split at hwaits <;> cases hwaits
  | idle changes since wake =>
      have hwaits := hnone wake.ceilMilliseconds
      simp [hphase] at hwaits
  | _ =>
      have hwaits := hnone 0
      simp [hphase] at hwaits

def IsSilent (s : Session) : Prop :=
  (∀ entry ∈ s.members.entries, entry.2.IsSilent) ∧ s.announcements = [] ∧ s.hub.blocks.items = []
    ∧ s.verifying = none ∧ s.hub.uploads.items = [] ∧ s.backlog = [] ∧ s.upload = .idle
    ∧ s.expiry = .asleep none ∧ s.reservations.changed = false

instance (s : Session) : Decidable s.IsSilent := inferInstanceAs (Decidable (_ ∧ _))

theorem connectionStep_eq_some {step : Endpoint → Option Endpoint}
    (h : s.connectionStep? number step = some s') :
    ∃ m e, s.members.get? number = some m ∧ step (m.endpoint s.hub) = some e := by
  unfold connectionStep? at h
  split at h
  · cases h
  next e he =>
  obtain ⟨e', he', _⟩ := Option.map_eq_some_iff.mp h
  obtain ⟨m, hm, rfl⟩ := Option.map_eq_some_iff.mp he
  exact ⟨m, e', hm, he'⟩

theorem IsSilent.rests (h : s.IsSilent) : s.Rests := by
  obtain ⟨hmembers, hannouncements, hblocks, hverifying, huploads, hbacklog, hupload, hexpiry,
    hunchanged⟩ := h
  have hmember : ∀ {number : Nat} {m : Member}, s.members.get? number = some m → m.IsSilent :=
    fun hm => hmembers _ (Table.mem_of_get? hm)
  intro now action s' hstep
  cases action with
  | stop number =>
      obtain ⟨m, e, hm, he⟩ := connectionStep_eq_some hstep
      obtain ⟨_, hkept, _⟩ := hmember hm
      simp [Endpoint.stop?, Member.endpoint, hkept] at he
  | receive number =>
      obtain ⟨m, e, hm, he⟩ := connectionStep_eq_some hstep
      obtain ⟨hrunning, _, _, hreading, hheard, _⟩ := hmember hm
      cases hreader : m.connection.reader with
      | reading deadline =>
          simp only [Endpoint.receive?, Member.endpoint, hrunning, hreader, hheard, Bool.not_true,
            Bool.false_eq_true, if_false] at he
          split at he
          · next hover => exact ⟨number, m, hm, .missed deadline hreader hheard hover⟩
          · cases he
      | _ =>
          rw [hreader] at hreading
          cases hreading
  | transmit number =>
      obtain ⟨m, e, hm, he⟩ := connectionStep_eq_some hstep
      obtain ⟨_, _, _, _, _, hwaiting, hqueue⟩ := hmember hm
      cases hwriter : m.connection.writer with
      | waiting due => exact ⟨number, m, hm, .sends due hwriter hqueue⟩
      | writing =>
          rw [hwriter] at hwaiting
          cases hwaiting
  | closeOut number =>
      rw [act?, closeOut?] at hstep
      split at hstep
      · cases hstep
      next m hm =>
      obtain ⟨hrunning, _⟩ := hmember hm
      have hended : m.connection.hasEnded = false := by
        rw [Bool.eq_false_iff]
        intro hended
        cases hrunning.symm.trans (Connection.isRunning_of_hasEnded hended)
      simp [hended] at hstep
  | request number coins =>
      rw [act?, request?] at hstep
      split at hstep
      · cases hstep
      next m hm =>
      obtain ⟨hrunning, _, hretired, _⟩ := hmember hm
      simp [hrunning, hretired] at hstep
  | announce position late => simp [act?, sendAnnouncement?, hannouncements] at hstep
  | consume => simp [act?, consume?, hblocks, Channel.take?] at hstep
  | finishPiece => simp [act?, finishPiece?, hverifying] at hstep
  | pickUpload => simp [act?, pickUpload?, hupload, huploads, hbacklog] at hstep
  | readUpload => simp [act?, readUpload?, hupload] at hstep
  | sendUpload => simp [act?, sendUpload?, hupload] at hstep
  | expire => simp [act?, expire?, hexpiry, hunchanged, ExpiryLoop.step?, ExpiryLoop.isDue] at hstep

end Session

end TorrentCore
