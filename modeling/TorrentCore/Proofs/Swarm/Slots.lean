import Mathlib.Data.List.Nodup
import TorrentCore.Proofs.Bitfield
import TorrentCore.Proofs.Swarm.Reconciling
import TorrentCore.Proofs.Swarm.Run

/-!
# Slots of a swarm

An attempt holds a slot just as long as its handshakes are still to be exchanged, however they end.
So in every run the free slots and the attempts under way make up the bound, and what finds no free
slot changes nothing.
-/

namespace TorrentCore

/-- Whoever is at work on an attempt holds its slot. -/
structure Attempt.Holding (a : Attempt) : Prop where
  isOpen_eq : a.isOpen = a.isPending
  holdsSlot_eq : a.holdsSlot = a.isPending

theorem Attempt.isOpen_of_isPending {a : Attempt} (h : a.isPending = true) : a.isOpen = true := by
  unfold isPending at h
  unfold isOpen
  split
  · next hover =>
    rw [hover] at h
    cases h
  · rfl

namespace Books

variable {options : SwarmOptions} {b b' : Books} {k free : Nat} {a a' : Attempt}

def isPending (b : Books) (k : Nat) : Bool := (b.attempt k).any Attempt.isPending

def pendingCount (b : Books) : Nat := b.numbers.countP b.isPending

structure SlotsKept (options : SwarmOptions) (b : Books) : Prop where
  options_eq : b.options = options
  nodup : b.numbers.Nodup
  mem_numbers : ∀ k, k ∈ b.numbers ↔ b.attempt k ≠ none
  lt_next : ∀ k ∈ b.numbers, k < b.nextNumber
  holding : ∀ k a, b.attempt k = some a → a.Holding
  free_add : b.freeSlots + b.pendingCount = options.maxHalfOpen

theorem SlotsKept.withSessions (h : SlotsKept options b) (session : Nat → Option Session) :
    SlotsKept options { b with session := session } :=
  ⟨h.options_eq, h.nodup, h.mem_numbers, h.lt_next, h.holding, h.free_add⟩

theorem SlotsKept.found (h : SlotsKept options b) (s : Session) :
    SlotsKept options (b.found s) where
  options_eq := h.options_eq
  nodup := h.nodup
  mem_numbers := h.mem_numbers
  lt_next := fun k hk => Nat.lt_succ_of_lt (h.lt_next k hk)
  holding := h.holding
  free_add := h.free_add

/-- An attempt may change if the free slots make up for it. -/
theorem SlotsKept.put (h : SlotsKept options b) (ha : b.attempt k = some a) (ha' : a'.Holding)
    (hfree : free + a'.isPending.toNat = b.freeSlots + a.isPending.toNat) :
    SlotsKept options { b.putAttempt k a' with freeSlots := free } where
  options_eq := h.options_eq
  nodup := h.nodup
  mem_numbers := by
    intro n
    show n ∈ b.numbers ↔ (b.putAttempt k a').attempt n ≠ none
    rw [attempt_putAttempt, h.mem_numbers]
    split
    · next heq => simp [heq, ha]
    · rfl
  lt_next := h.lt_next
  holding := by
    intro n an hn
    have hput : (b.putAttempt k a').attempt n = some an := hn
    rw [attempt_putAttempt] at hput
    split at hput
    · cases hput
      exact ha'
    · exact h.holding n an hput
  free_add := by
    have hnumber : k ∈ b.numbers := (h.mem_numbers k).mpr (by simp [ha])
    have hothers : ∀ n, n ≠ k → (b.putAttempt k a').isPending n = b.isPending n := by
      intro n hn
      rw [isPending, isPending, attempt_putAttempt, if_neg hn]
    have hcount := countP_add_toNat h.nodup hnumber fun n _ => hothers n
    have hbefore : b.isPending k = a.isPending := by rw [isPending, ha, Option.any_some]
    have hafter : (b.putAttempt k a').isPending k = a'.isPending := by
      rw [isPending, attempt_putAttempt, if_pos rfl, Option.any_some]
    rw [hbefore, hafter] at hcount
    have hsum := h.free_add
    rw [pendingCount] at hsum
    show free + b.numbers.countP (b.putAttempt k a').isPending = options.maxHalfOpen
    omega

theorem SlotsKept.attempt_nextNumber (h : SlotsKept options b) : b.attempt b.nextNumber = none := by
  by_contra hsome
  exact Nat.lt_irrefl _ (h.lt_next _ ((h.mem_numbers _).mpr hsome))

theorem SlotsKept.enter (h : SlotsKept options b) (hpending : a.isPending = true)
    (hfree : b.freeSlots = free + 1) : SlotsKept options (b.enter free a) := by
  have hnone := h.attempt_nextNumber
  have hnew : b.nextNumber ∉ b.numbers := fun hmem => (h.mem_numbers _).mp hmem hnone
  have hnumbers : (b.enter free a).numbers = b.numbers ++ [b.nextNumber] := by
    simp only [Books.enter, hnone]
  refine ⟨h.options_eq, ?_, fun n => ?_, fun n hn => ?_, fun n an hn => ?_, ?_⟩
  · rw [hnumbers, ← List.concat_eq_append]
    exact List.Nodup.concat hnew h.nodup
  · rw [hnumbers, attempt_enter, List.mem_append, List.mem_singleton, h.mem_numbers]
    split <;> simp_all
  · rw [hnumbers, List.mem_append, List.mem_singleton] at hn
    show n < b.nextNumber + 1
    rcases hn with hold | rfl
    · exact Nat.lt_succ_of_lt (h.lt_next n hold)
    · exact Nat.lt_succ_self _
  · rw [attempt_enter] at hn
    split at hn
    · cases hn
      exact ⟨(Attempt.isOpen_of_isPending hpending).trans hpending.symm, hpending.symm⟩
    · exact h.holding n an hn
  · have hothers : b.numbers.countP (b.enter free a).isPending = b.pendingCount := by
      apply List.countP_congr
      intro n hn
      have hne : n ≠ b.nextNumber := fun heq => hnew (heq ▸ hn)
      rw [isPending, attempt_enter, if_neg hne]
      rfl
    have hself : (b.enter free a).isPending b.nextNumber = true := by
      rw [isPending, attempt_enter, if_pos rfl]
      exact hpending
    have hsum := h.free_add
    rw [pendingCount, hnumbers, List.countP_append, hothers, List.countP_cons_of_pos hself,
      List.countP_nil]
    show free + (b.pendingCount + 1) = options.maxHalfOpen
    omega

theorem holding_over (a : Attempt) (link : Link) :
    Attempt.Holding { a with phase := .over, link := link, holdsSlot := false } := ⟨rfl, rfl⟩

theorem SlotsKept.finish (h : SlotsKept options b) (ha : b.attempt k = some a) (link : Link) :
    SlotsKept options (b.finish k a link) := by
  apply h.put ha (holding_over a link)
  have hholds := (h.holding k a ha).holdsSlot_eq
  cases hpending : a.isPending <;> rw [hholds, hpending] <;> rfl

theorem SlotsKept.close (h : SlotsKept options b) (ha : b.attempt k = some a) (link : Link) :
    SlotsKept options (b.close k a link) := (h.finish ha link).withSessions _

theorem SlotsKept.course (h : SlotsKept options b) (ha : b.attempt k = some a)
    (hopen : a.isOpen = true) (hcourse : b.Course k a b') : SlotsKept options b' := by
  obtain ⟨hisOpen, hholds⟩ := h.holding k a ha
  cases hcourse with
  | goesOn a' haddress hdialer hholds' hpending =>
      refine h.put ha ⟨?_, ?_⟩ ?_
      · rw [Attempt.isOpen_of_isPending hpending, hpending]
      · rw [hholds', hholds, ← hisOpen, hopen, hpending]
      · rw [hpending, ← hisOpen, hopen]
  | abandoned link => exact h.close ha link
  | promoted now taker s s' link hand buffer hs hadd =>
      exact (h.withSessions (b.putSession taker s').session).close ha link

theorem SlotsKept.stride (h : SlotsKept options b) (hstride : b.Stride b') :
    SlotsKept options b' := by
  cases hstride with
  | session now number s s' event hs hplain hstep => exact h.withSessions _
  | checked number s owned hs => exact h.withSessions _
  | founded t s hmake => exact h.found s
  | accepted a free hdialer hpending hfree => exact h.enter hpending hfree
  | attended number a b' ha hopen hcourse => exact h.course ha hopen hcourse
  | relinked number a link ha =>
      have hholding := h.holding number a ha
      exact h.put ha ⟨hholding.isOpen_eq, hholding.holdsSlot_eq⟩ rfl

theorem SlotsKept.dials (h : SlotsKept options b) (hdials : b.Dials b') : SlotsKept options b' := by
  cases hdials with
  | dial number s a free giveUp hs hmay hfree =>
      exact (h.enter (a := dialing number a giveUp) rfl hfree).withSessions _

theorem SlotsKept.freeSlots_of_course (h : SlotsKept options b) (ha : b.attempt k = some a)
    (hopen : a.isOpen = true) (hcourse : b.Course k a b') :
    ∃ a', b'.attempt k = some a' ∧ (∀ n, n ≠ k → b'.attempt n = b.attempt n)
      ∧ b'.freeSlots = b.freeSlots + (!a'.isPending).toNat := by
  obtain ⟨hisOpen, hholds⟩ := h.holding k a ha
  have hheld : a.holdsSlot = true := by rw [hholds, ← hisOpen, hopen]
  have hclosed : ∀ (b₀ : Books) (link : Link), (∃ a', (b₀.close k a link).attempt k = some a'
      ∧ (∀ n, n ≠ k → (b₀.close k a link).attempt n = b₀.attempt n)
      ∧ (b₀.close k a link).freeSlots = b₀.freeSlots + (!a'.isPending).toNat) := by
    intro b₀ link
    have hafter := fun n => attempt_close b₀ k n a link
    exact ⟨_, (hafter k).trans (if_pos rfl), fun n hn => (hafter n).trans (if_neg hn), if_pos hheld⟩
  cases hcourse with
  | goesOn a' haddress hdialer hholds' hpending =>
      have hput := fun n => attempt_putAttempt b k n a'
      refine ⟨a', (hput k).trans (if_pos rfl), fun n hn => (hput n).trans (if_neg hn), ?_⟩
      rw [hpending]
      rfl
  | abandoned link => exact hclosed b link
  | promoted now taker s s' link hand buffer hs hadd => exact hclosed (b.putSession taker s') link

def IsOver (b : Books) (k : Nat) : Prop := ∃ a, b.attempt k = some a ∧ a.isPending = false

/-- An attempt that is over does not begin again, because its number is taken. -/
theorem IsOver.enter (h : b.IsOver k) (hslots : SlotsKept options b) (free : Nat) (a : Attempt) :
    (b.enter free a).IsOver k := by
  obtain ⟨an, han, hover⟩ := h
  have hold : k < b.nextNumber := hslots.lt_next k ((hslots.mem_numbers k).mpr (by simp [han]))
  refine ⟨an, ?_, hover⟩
  rw [attempt_enter, if_neg (Nat.ne_of_lt hold), han]

theorem IsOver.stride (h : b.IsOver k) (hslots : SlotsKept options b) (hstride : b.Stride b') :
    b'.IsOver k := by
  cases hstride with
  | accepted a free hdialer hpending hfree => exact h.enter hslots free a
  | attended number a b' ha hopen hcourse =>
      obtain ⟨an, han, hover⟩ := h
      by_cases heq : k = number
      · subst heq
        cases han.symm.trans ha
        rw [(hslots.holding _ _ ha).isOpen_eq, hover] at hopen
        cases hopen
      · obtain ⟨_, _, hothers, _⟩ := hslots.freeSlots_of_course ha hopen hcourse
        exact ⟨an, (hothers k heq).trans han, hover⟩
  | relinked number a link ha =>
      obtain ⟨an, han, hover⟩ := h
      unfold IsOver
      rw [attempt_putAttempt]
      split
      · next heq =>
        subst heq
        cases han.symm.trans ha
        exact ⟨_, rfl, hover⟩
      · exact ⟨an, han, hover⟩
  | _ => exact h

theorem IsOver.dials (h : b.IsOver k) (hslots : SlotsKept options b) (hdials : b.Dials b') :
    b'.IsOver k := by
  cases hdials with
  | dial number s a free giveUp hs hmay hfree => exact h.enter hslots free _

end Books

namespace Swarm

open Books

variable {w w' : Swarm} {peerId : Identifier} {options : SwarmOptions} {start now : Nanoseconds}
  {number : Nat} {events : List (Nanoseconds × Event)}

def pendingAttempts (w : Swarm) : Nat := w.attempts.values.countP Attempt.isPending

def Action.attempt? : Action → Option Nat
  | .exchange number | .giveUp number | .answerDial number _ => some number
  | _ => none

/-- An attempt has gone on. Nobody else's has, and its slot is free again if it has ended. -/
def GoesOn (w : Swarm) (number : Nat) (w' : Swarm) : Prop :=
  ∃ a a', w.attempts.get? number = some a ∧ a.isPending = true
    ∧ w'.attempts.get? number = some a' ∧ (∀ n, n ≠ number → w'.attempts.get? n = w.attempts.get? n)
    ∧ w'.freeSlots = w.freeSlots + (!a'.isPending).toNat

theorem slotsKept_make (peerId : Identifier) (options : SwarmOptions) (start : Nanoseconds) :
    SlotsKept options (make peerId options start).books where
  options_eq := rfl
  nodup := List.nodup_nil
  mem_numbers := fun _ => ⟨fun h => (nomatch h), fun h => absurd rfl h⟩
  lt_next := fun _ h => nomatch h
  holding := fun _ _ h => nomatch h
  free_add := rfl

theorem slotsKept_run (hrun : run? events (make peerId options start) = some w) :
    SlotsKept options w.books :=
  run_invariant SlotsKept.stride SlotsKept.dials (slotsKept_make peerId options start) hrun

theorem goesOn_of_act {action : Action} (hkept : SlotsKept options w.books)
    (haction : action.attempt? = some number) (h : w.act? now action = some w') :
    w.GoesOn number w' := by
  have hcourse : ∃ a, w.attempts.get? number = some a ∧ a.isOpen = true
      ∧ w.books.Course number a w'.books := by
    cases action with
    | exchange n =>
        cases haction
        exact course_exchange h
    | giveUp n =>
        cases haction
        exact course_giveUp h
    | answerDial n link =>
        cases haction
        exact course_answerDial h
    | _ => cases haction
  obtain ⟨a, ha, hopen, hcourse⟩ := hcourse
  obtain ⟨a', ha', hothers, hfree⟩ := hkept.freeSlots_of_course ha hopen hcourse
  exact ⟨a, a', ha, (hkept.holding number a ha).isOpen_eq ▸ hopen, ha', hothers, hfree⟩

theorem giveUp?_eq_abandon {a : Attempt} (ha : w.attempts.get? number = some a)
    (hpending : a.isPending = true) (hlost : w.isCalledOff a = true
      ∨ ∃ time, a.giveUp = some time ∧ time.ceilMilliseconds ≤ now) :
    w.giveUp? now number = some (w.abandon number a) := by
  unfold giveUp?
  rw [ha]
  dsimp only
  split
  · next hover =>
    rw [Attempt.isPending, hover] at hpending
    cases hpending
  · apply if_pos
    rcases hlost with hcalled | ⟨time, htime, hlate⟩
    · rw [hcalled, Bool.or_true]
    · rw [htime]
      simp only [hlate, decide_true, Bool.true_or]

theorem attempts_abandon {a : Attempt} (ha : w.attempts.get? number = some a) :
    ∃ a', (w.abandon number a).attempts.get? number = some a' ∧ a'.isPending = false := by
  have hget := congrFun (congrArg Books.attempt (books_abandon ha)) number
  rw [attempt_close, if_pos rfl] at hget
  exact ⟨_, hget, rfl⟩

theorem dialAll_of_full (h : w.freeSlots = 0) (now : Nanoseconds) (number : Nat)
    (addresses : List Address) : (dialAll now number addresses w).2 = w := by
  cases addresses with
  | nil => rfl
  | cons a addresses =>
      have hfull : (w.modifySession number fun s => s.startConnecting a).freeSlots = 0 := h
      rw [dialAll, dial_of_full hfull]

/-- In every run the free slots and the attempts under way make up the bound. Whatever step an
attempt takes, it stays under way or frees its slot, and once it is over it stays so. One that is
not wanted any more can be given up, and what finds no free slot changes nothing. -/
theorem slots_are_conserved (hrun : run? events (make peerId options start) = some w) :
    w.freeSlots + w.pendingAttempts = options.maxHalfOpen
      ∧ w.pendingAttempts ≤ options.maxHalfOpen
      ∧ (∀ number a, w.attempts.get? number = some a → a.holdsSlot = a.isPending)
      ∧ (∀ now action number w', action.attempt? = some number → w.act? now action = some w' →
        w.GoesOn number w')
      ∧ (∀ now number a, w.attempts.get? number = some a → a.isPending = true →
        (w.isCalledOff a = true ∨ ∃ time, a.giveUp = some time ∧ time.ceilMilliseconds ≤ now) →
        ∃ w' a', w.act? now (.giveUp number) = some w' ∧ w'.attempts.get? number = some a'
          ∧ a'.isPending = false)
      ∧ (∀ later w' number a, run? later w = some w' → w.attempts.get? number = some a →
        a.isPending = false → ∃ a', w'.attempts.get? number = some a' ∧ a'.isPending = false)
      ∧ (w.freeSlots = 0 → ∀ now, (∀ link address, w.happen? now (.accept link address) = some w)
        ∧ ∀ number addresses, (dialAll now number addresses w).2 = w) := by
  have hkept := slotsKept_run hrun
  have hcount : w.books.pendingCount = w.pendingAttempts :=
    (Table.countP_values hkept.nodup Attempt.isPending).symm
  have hsum : w.freeSlots + w.pendingAttempts = options.maxHalfOpen := hcount ▸ hkept.free_add
  refine ⟨hsum, by omega, fun number a ha => (hkept.holding number a ha).holdsSlot_eq,
    ?_, ?_, ?_, ?_⟩
  · intro now action number w' haction hact
    exact goesOn_of_act hkept haction hact
  · intro now number a ha hpending hlost
    obtain ⟨a', ha', hover⟩ := attempts_abandon ha
    exact ⟨_, a', giveUp?_eq_abandon ha hpending hlost, ha', hover⟩
  · intro later w' number a hlater ha hover
    have hnow : SlotsKept options w.books ∧ w.books.IsOver number := ⟨hkept, a, ha, hover⟩
    have hthen : SlotsKept options w'.books ∧ w'.books.IsOver number :=
      run_invariant (P := fun b => SlotsKept options b ∧ b.IsOver number)
        (fun h hstride => ⟨h.1.stride hstride, h.2.stride h.1 hstride⟩)
        (fun h hdials => ⟨h.1.dials hdials, h.2.dials h.1 hdials⟩) hnow hlater
    exact hthen.2
  · intro hfull now
    refine ⟨fun link address => ?_,
      fun number addresses => dialAll_of_full hfull now number addresses⟩
    have hnone : w.accept now link address = none := by simp only [accept, claimSlot?, hfull]
    rw [happen?, hnone, Option.getD_none]

/-- The one slot is taken and another socket is dropped; then the swarm is stopped. -/
def stoppedInTheMiddle : List (Nanoseconds × Event) :=
  let here : Address := ⟨.v4 [127, 0, 0, 1], 6881⟩
  [(0, .accept (.make 4096) here), (0, .accept (.make 4096) here), (0, .stop)]

/-- The attempt that was under way can be given up, and its slot is free again. -/
theorem slots_are_conserved_stopped : ∃ w w',
    run? stoppedInTheMiddle (make .zero { maxHalfOpen := 1 } 0) = some w
      ∧ w.freeSlots = 0 ∧ w.pendingAttempts = 1 ∧ w.act? 0 (.giveUp 0) = some w' ∧ w'.freeSlots
        = 1 := by
  have hdone : (run? stoppedInTheMiddle (make .zero { maxHalfOpen := 1 } 0)).any (fun w =>
      decide (w.freeSlots = 0) && (w.attempts.get? 0).any fun a => a.isPending && w.isCalledOff a)
      = true := by
    decide +kernel
  obtain ⟨w, hrun, htest⟩ := (Option.any_eq_true _ _).mp hdone
  obtain ⟨hfree, htest⟩ := Bool.and_eq_true_iff.mp htest
  obtain ⟨a, ha, htest⟩ := (Option.any_eq_true _ _).mp htest
  obtain ⟨hpending, hcalled⟩ := Bool.and_eq_true_iff.mp htest
  have hfree := of_decide_eq_true hfree
  obtain ⟨hsum, -, -, hsteps, hgiveUp, -, -⟩ := slots_are_conserved hrun
  obtain ⟨w', a', hact, ha', hover⟩ := hgiveUp 0 0 a ha hpending (Or.inl hcalled)
  obtain ⟨_, a'', _, _, ha'', _, hfree'⟩ := hsteps 0 (.giveUp 0) 0 w' rfl hact
  cases ha'.symm.trans ha''
  rw [hover, hfree] at hfree'
  rw [hfree, Nat.zero_add] at hsum
  exact ⟨w, w', hrun, hfree, hsum, hact, hfree'⟩

end Swarm

end TorrentCore
