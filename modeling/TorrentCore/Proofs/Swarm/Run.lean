import TorrentCore.Proofs.Swarm.Pass

/-!
# Runs of a swarm

A swarm goes on by its own steps and by what is done to it from outside: sockets are handed to it,
torrents are added, checked and removed, addresses are told, passes are asked for, sessions are
paused and their connections told to end, far ends do with their links what they like, and the swarm
is stopped. A run is any sequence of these, at any times, from a new swarm on.

In the books a run is a sequence of strides. So what every stride keeps holds after every run.
-/

namespace TorrentCore

namespace Session

def Event.isOutside : Event → Bool
  | .farEnd _ _ | .disconnect _ | .send _ _ _ | .pause | .resume | .addAddress _ => true
  | _ => false

theorem isPlain_of_isOutside {event : Event} (h : event.isOutside = true) :
    event.isPlain = true := by
  cases event with
  | connect _ _ _ _ _ | startConnecting _ | doneConnecting _ => cases h
  | _ => rfl

theorem checkExisting_eq (s : Session) :
    ∃ owned, s.checkExisting.2 = { s with owned := owned } := by
  obtain ⟨owned, _, heq⟩ := checkExisting_induction (s := s) (P := fun _ => True) trivial
    fun _ _ _ _ _ _ _ => trivial
  exact ⟨owned, heq⟩

end Session

namespace Swarm

open Books Relation

inductive Event where
  | own (action : Action)
  /-- A socket is handed over. Without a free slot nothing comes of it. -/
  | accept (link : Link) (address : Address)
  | beginAdd (t : TorrentSource)
  | finishAdd (number : Nat)
  | removeTorrent (infoHash : Identifier)
  | addAddress (infoHash : Identifier) (address : Address)
  | reconcile
  | stop
  | session (number : Nat) (event : Session.Event)
  | check (number : Nat)
  | farEnd (number : Nat) (link : Link)

def after {α : Type} (w : Swarm) : Except Error (α × Swarm) → Swarm
  | .ok (_, w) => w
  | .error _ => w

def happen? (now : Nanoseconds) (w : Swarm) : Event → Option Swarm
  | .own action => w.act? now action
  | .accept link address => some ((w.accept now link address).getD w)
  | .beginAdd t => some (w.after (w.beginAdd t))
  | .finishAdd number => some (w.finishAdd number).2
  | .removeTorrent infoHash => some (w.after (w.removeTorrent infoHash))
  | .addAddress infoHash a => some (w.after (w.addAddress infoHash a))
  | .reconcile => some (w.reconcile now)
  | .stop => some w.stop
  | .session number event =>
    if event.isOutside then
      (w.sessions.get? number).bind fun s => (s.happen? now event).map fun s =>
        { w with sessions := w.sessions.insert number s }
    else none
  | .check number => some (w.modifySession number fun s => s.checkExisting.2)
  | .farEnd number link => some (w.modifyAttempt number fun a => { a with link := link })

def run? : List (Nanoseconds × Event) → Swarm → Option Swarm
  | [], w => some w
  | (now, event) :: rest, w => (w.happen? now event).bind (run? rest)

variable {w w' : Swarm} {now : Nanoseconds} {number : Nat}

/-! ### Strides -/

abbrev Strides : Books → Books → Prop := ReflTransGen Books.Stride

theorem strides_modifySession (w : Swarm) (number : Nat) {f : Session → Session}
    (hf : ∀ b s, b.session number = some s → Strides b (b.putSession number (f s))) :
    Strides w.books (w.modifySession number f).books := by
  cases hs : w.sessions.get? number with
  | none => rw [books_modifySession_none hs]
  | some s =>
      rw [books_modifySession_some hs]
      exact hf w.books s hs

theorem strides_shutdown {b : Books} {s : Session} (hs : b.session number = some s) :
    Strides b (b.putSession number s.shutdown) :=
  .single (.session 0 number s _ .shutdown hs rfl rfl)

theorem strides_dropAndShutdown {b : Books} {s : Session} (hs : b.session number = some s) :
    Strides b (b.putSession number s.dropAllPeers.shutdown) := by
  have hdropped : b.Stride (b.putSession number s.dropAllPeers) :=
    .session 0 number s _ .dropAllPeers hs rfl rfl
  have hget : (b.putSession number s.dropAllPeers).session number = some s.dropAllPeers := by simp
  have hshut := strides_shutdown hget
  rw [putSession_putSession] at hshut
  exact .head hdropped hshut

theorem strides_check {b : Books} {s : Session} (hs : b.session number = some s) :
    Strides b (b.putSession number s.checkExisting.2) := by
  obtain ⟨owned, heq⟩ := s.checkExisting_eq
  rw [heq]
  exact .single (.checked number s owned hs)

theorem strides_foldl {f : Swarm → Nat → Swarm} (hf : ∀ w n, Strides w.books (f w n).books)
    (numbers : List Nat) (w : Swarm) : Strides w.books (numbers.foldl f w).books := by
  induction numbers generalizing w with
  | nil => exact .refl
  | cons n numbers ih => exact (hf w n).trans (ih (f w n))

theorem strides_stop (w : Swarm) : Strides w.books w.stop.books := by
  have hdropped := strides_foldl
    (f := fun w n => w.modifySession n fun s => s.dropAllPeers.shutdown)
    (fun w n => strides_modifySession w n fun _ _ hs => strides_dropAndShutdown hs) w.torrents.values w
  have hshut := strides_foldl (f := fun w n => w.modifySession n Session.shutdown)
    (fun w n => strides_modifySession w n fun _ _ hs => strides_shutdown hs)
  exact hdropped.trans (hshut _ _)

theorem strides_beginAdd {t : TorrentSource} {out : Nat × Swarm} (h : w.beginAdd t = .ok out) :
    Strides w.books out.2.books := by
  unfold beginAdd at h
  split at h
  · cases h
  split at h
  · cases h
  next s hmake =>
  cases h
  have hfounded := Stride.founded (b := w.books) t s hmake
  have hbooks : ∀ s', Swarm.books { w with
        sessions := w.sessions.insert w.nextNumber s'
        adding := w.adding.insert w.nextNumber (t.initial == .check)
        nextNumber := w.nextNumber + 1 } = w.books.found s' := by
    intro s'
    rw [found, ← books_insertSession]
    rfl
  simp only [hbooks]
  split
  · -- The swarm has been stopped.
    have hget : (w.books.found s).session w.nextNumber = some s := Function.update_self _ _ _
    have hshut := strides_shutdown hget
    exact .head hfounded (found_putSession w.books s s.shutdown ▸ hshut)
  · exact .single hfounded

theorem strides_putShutdown {b b' : Books} {s : Session} (h : Strides b (b'.putSession number s)) :
    Strides b (b'.putSession number s.shutdown) := by
  have hget : (b'.putSession number s).session number = some s := by simp
  have hshut := strides_shutdown hget
  rw [putSession_putSession] at hshut
  exact h.trans hshut

theorem strides_list {b : Books} {s : Session} (h : Strides b (w.books.putSession number s)) :
    Strides b (w.list number s).2.books := by
  unfold list
  split
  · rw [books_insertSession]
    exact strides_putShutdown h
  · have hlisted : Swarm.books { w with
          sessions := w.sessions.insert number s
          torrents := w.torrents.insert s.infoHash number } = w.books.putSession number s := by
      rw [← books_insertSession]
      rfl
    simp only [hlisted]
    exact h

theorem strides_finishAdd (w : Swarm) (number : Nat) :
    Strides w.books (w.finishAdd number).2.books := by
  unfold finishAdd
  split
  · next check s _ hs =>
    have hchecked := strides_check (b := w.books) hs
    simp only
    split
    · split
      · next heq =>
        rw [heq] at hchecked
        exact strides_list hchecked
      · next heq =>
        rw [heq] at hchecked
        have hshut := strides_putShutdown hchecked
        rw [← books_insertSession] at hshut
        exact hshut
    · apply strides_list
      have hsame := putSession_eq_self (b := w.books) hs
      exact hsame.symm ▸ .refl
  · exact .refl

theorem strides_removeTorrent {infoHash : Identifier} {out : Nat × Swarm}
    (h : w.removeTorrent infoHash = .ok out) : Strides w.books out.2.books := by
  unfold removeTorrent at h
  split at h
  · cases h
  · next number _ =>
    cases h
    exact strides_modifySession w number fun _ _ hs => strides_dropAndShutdown hs

theorem strides_addAddress {infoHash : Identifier} {a : Address} {out : Bool × Swarm}
    (h : w.addAddress infoHash a = .ok out) : Strides w.books out.2.books := by
  unfold addAddress at h
  split at h
  · next number _ _ _ =>
    cases h
    exact strides_modifySession w number fun b s hs =>
      .single (.session 0 number s _ (.addAddress a) hs rfl rfl)
  · cases h

theorem strides_after {α : Type} {out : Except Error (α × Swarm)}
    (h : ∀ result, out = .ok result → Strides w.books result.2.books) :
    Strides w.books (w.after out).books := by
  cases out with
  | ok result => exact h result rfl
  | error _ => exact .refl

theorem strides_session {s s' : Session} {event : Session.Event}
    (hs : w.sessions.get? number = some s) (hplain : event.isPlain = true)
    (hstep : s.happen? now event = some s') :
    Strides w.books (books { w with sessions := w.sessions.insert number s' }) := by
  rw [books_insertSession]
  exact .single (.session now number s s' event hs hplain hstep)

theorem passes_or_strides {event : Event} (h : w.happen? now event = some w') :
    Passes w.books w'.books ∨ Strides w.books w'.books := by
  have hattended : ∀ {number}, (∃ a, w.attempts.get? number = some a ∧ a.isOpen = true
      ∧ w.books.Course number a w'.books) → Strides w.books w'.books := by
    rintro number ⟨a, ha, hopen, hcourse⟩
    exact .single (.attended number a _ ha hopen hcourse)
  cases event with
  | own action =>
      cases action with
      | session number action =>
          rw [happen?, act?] at h
          split at h
          · cases h
          next s hs =>
          obtain ⟨s', hstep, rfl⟩ := Option.map_eq_some_iff.mp h
          have hhappened : s.happen? now (.own action) = some s' := hstep
          exact Or.inr (strides_session hs rfl hhappened)
      | exchange number => exact Or.inr (hattended (course_exchange h))
      | giveUp number => exact Or.inr (hattended (course_giveUp h))
      | answerDial number link => exact Or.inr (hattended (course_answerDial h))
      | reconcile => exact Or.inl (passes_reconcile? h)
  | accept link address =>
      cases h
      refine Or.inr ?_
      cases haccept : w.accept now link address with
      | none => exact .refl
      | some w' => exact .single (stride_accept haccept)
  | beginAdd t =>
      cases h
      exact Or.inr (strides_after fun _ => strides_beginAdd)
  | finishAdd number =>
      cases h
      exact Or.inr (strides_finishAdd w number)
  | removeTorrent infoHash =>
      cases h
      exact Or.inr (strides_after fun _ => strides_removeTorrent)
  | addAddress infoHash a =>
      cases h
      exact Or.inr (strides_after fun _ => strides_addAddress)
  | reconcile =>
      cases h
      exact Or.inl (passes_reconcile w now)
  | stop =>
      cases h
      exact Or.inr (strides_stop w)
  | session number event =>
      rw [happen?] at h
      split at h
      · next houtside =>
        obtain ⟨s, hs, hrest⟩ := Option.bind_eq_some_iff.mp h
        obtain ⟨s', hstep, rfl⟩ := Option.map_eq_some_iff.mp hrest
        exact Or.inr (strides_session hs (Session.isPlain_of_isOutside houtside) hstep)
      · cases h
  | check number =>
      cases h
      exact Or.inr (strides_modifySession w number fun _ _ hs => strides_check hs)
  | farEnd number link =>
      cases h
      refine Or.inr ?_
      cases ha : w.attempts.get? number with
      | none => rw [books_modifyAttempt_none ha]
      | some a =>
          rw [books_modifyAttempt ha]
          exact .single (.relinked number a link ha)

theorem reaches_run {events : List (Nanoseconds × Event)} (hrun : run? events w = some w') :
    Reaches w.books w'.books := by
  induction events generalizing w with
  | nil =>
      cases hrun
      exact .refl
  | cons entry events ih =>
      obtain ⟨now, event⟩ := entry
      obtain ⟨next, hnext, hrest⟩ := Option.bind_eq_some_iff.mp hrun
      refine ReflTransGen.trans ?_ (ih hrest)
      rcases passes_or_strides hnext with hpass | hstrides
      · exact ReflTransGen.mono (fun _ _ => PassStride.stride_or_dials) _ _ hpass
      · exact ReflTransGen.mono (fun _ _ => Or.inl) _ _ hstrides

theorem run_invariant {P : Books → Prop} (hstride : ∀ {b b'}, P b → b.Stride b' → P b')
    (hdials : ∀ {b b'}, P b → b.Dials b' → P b') {events : List (Nanoseconds × Event)}
    (hw : P w.books) (hrun : run? events w = some w') : P w'.books :=
  (reaches_run hrun).invariant hstride hdials hw

end Swarm

end TorrentCore
