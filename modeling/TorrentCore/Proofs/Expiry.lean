import TorrentCore.Proofs.Reservation

/-!
# The loop that ends reservations

The loop ends what is due, looks when the next reservation ends, and sleeps until then or until it
is notified of a new one. Between any two of its steps pieces may be reserved and released, and time
goes on; the clock that it goes by when it ends what is due may have been read a while before. A
reservation that comes too late for the look at the deadlines leaves a notification behind, and a
notification outlasts everything but being taken by the loop. So there are two invariants: a loop
that sleeps without one covers every deadline (`Covers`), and since a loop woke up, either it has
ended all that was due then, or it is going to look again (`Swept`).
-/

namespace TorrentCore

namespace Reservations

def EachDeadline (r : Reservations) (P : Nanoseconds → Prop) : Prop :=
  ∀ index, r.isReserved index = true → ∃ deadline, r.deadlines.get? index = some deadline
    ∧ P deadline

variable {pieceCount : Nat} {r r' : Reservations} {m : Deadlines} {P : Nanoseconds → Prop}

theorem Represents.eachDeadline (h : Represents pieceCount r m)
    (hdeadlines : ∀ index deadline, m.lookup index = some deadline → P deadline) :
    r.EachDeadline P := by
  intro index hreserved
  rw [isReserved, h.contains_eq, decide_eq_true_eq] at hreserved
  obtain ⟨deadline, hget⟩ := Finmap.mem_iff.mp hreserved
  exact ⟨deadline, (h.get_eq index).trans hget, hdeadlines index deadline hget⟩

theorem Represents.sweep (h : Represents pieceCount r m) (clock : Nanoseconds) :
    ∃ m', Represents pieceCount (r.expire clock).2 m'
      ∧ ∀ index deadline, m'.lookup index = some deadline → clock < deadline := by
  obtain ⟨m', hanswer, hrepresents⟩ := h.expire clock
  refine ⟨m', hrepresents, fun index deadline hget => ?_⟩
  cases hanswer with
  | expired _ _ _ _ hmem _ hrest =>
      rw [hrest] at hget
      split at hget
      · cases hget
      next hindex =>
      exact Nat.lt_of_not_le fun hdue => hindex ((hmem index).mpr ⟨deadline, hget, hdue⟩)

theorem Represents.plan (h : Represents pieceCount r m) :
    Represents pieceCount r.nextDeadline.2 m
      ∧ (∀ index deadline, m.lookup index = some deadline →
        ∃ time, r.nextDeadline.1 = some time ∧ time ≤ deadline)
      ∧ ∀ time, r.nextDeadline.1 = some time → ∃ index, m.lookup index = some time := by
  obtain ⟨hanswer, hrepresents⟩ := h.nextDeadline
  refine ⟨hrepresents, ?_⟩
  rw [show (r.answer .nextDeadline).1 = .time r.nextDeadline.1 from rfl] at hanswer
  generalize r.nextDeadline.1 = wake at hanswer
  cases hanswer with
  | nothingDue hempty =>
      refine ⟨fun index deadline hget => ?_, nofun⟩
      rw [hempty, Finmap.lookup_empty] at hget
      cases hget
  | firstDue index first hget hfirst =>
      exact ⟨fun index' deadline hget' => ⟨first, rfl, hfirst index' deadline hget'⟩,
        fun time htime => ⟨index, Option.some.inj htime ▸ hget⟩⟩

/-! ### Notifications -/

theorem Represents.notice (h : Represents pieceCount r m) (changed : Bool) :
    Represents pieceCount { r with changed := changed } m :=
  ⟨h.wellFormed, h.pieceCount_eq, h.contains_eq, h.get_eq, h.nodup, h.sorted, h.queued⟩

theorem changed_of_reserve? {now ttl : Nanoseconds} {index : Nat}
    (h : r.reserve? now index ttl = some r') : r'.changed = true := by
  unfold reserve? at h
  split at h <;> cases h
  rfl

theorem changed_release (r : Reservations) (index : Nat) :
    (r.release index).2.changed = r.changed := by
  unfold release
  simp only
  split <;> rfl

end Reservations

/-- Reservations, the loop that ends them, and the time. -/
structure Watch where
  reservations : Reservations
  loop : ExpiryLoop
  now : Nanoseconds
  /-- When the loop took its last step. -/
  steppedAt : Nanoseconds
deriving DecidableEq

namespace Watch

open Reservations

def start (pieceCount : Nat) (now : Nanoseconds) : Watch := ⟨.empty pieceCount, .awake, now, now⟩

inductive Event where
  | reserve (index : Nat) (ttl : Nanoseconds)
  | release (index : Nat)
  | elapse (time : Nanoseconds)
  | step (clock : Nanoseconds)
  /-- The timer wakes the loop before a notification does, which is left for later. -/
  | timer

def happen? (w : Watch) : Event → Option Watch
  | .reserve index ttl =>
    some { w with reservations := (w.reservations.reserve? w.now index ttl).getD w.reservations }
  | .release index => some { w with reservations := (w.reservations.release index).2 }
  | .elapse time => some { w with now := w.now + time }
  | .step clock =>
    if w.steppedAt ≤ clock ∧ clock ≤ w.now then
      (w.loop.step? clock w.reservations).map fun (loop, reservations) =>
        { w with reservations := reservations, loop := loop, steppedAt := w.now }
    else none
  | .timer => match w.loop with
    | .asleep wake =>
      if ExpiryLoop.isDue w.now wake then some { w with loop := .awake, steppedAt := w.now } else none
    | _ => none

def run? : List Event → Watch → Option Watch
  | [], w => some w
  | event :: rest, w => (w.happen? event).bind (run? rest)

/-- The loop waits, and has no reason to go on. -/
def Rests (w : Watch) : Prop := w.loop.step? w.now w.reservations = none

def Wakes (w : Watch) (event : Event) : Prop :=
  (∃ wake, w.loop = .asleep wake) ∧ ((∃ clock, event = .step clock) ∨ event = .timer)

variable {pieceCount : Nat} {w w' : Watch} {event : Event} {events : List Event}

theorem run_invariant {P : Watch → Prop}
    (hstep : ∀ {w event w'}, P w → w.happen? event = some w' → P w') (hw : P w)
    (hrun : run? events w = some w') : P w' := by
  induction events generalizing w with
  | nil =>
      cases hrun
      exact hw
  | cons event events ih =>
      obtain ⟨next, hnext, hrest⟩ := Option.bind_eq_some_iff.mp hrun
      exact ih (hstep hw hnext) hrest

/-! ### What an event does -/

/-- What an event can do to the loop and to the deadlines. -/
inductive Course (w : Watch) (m : Deadlines) : Watch → Deadlines → Prop
  /-- The loop does nothing. If there are other deadlines than before it is notified. -/
  | aside (w' : Watch) (m' : Deadlines) (hloop : w'.loop = w.loop)
      (hstepped : w'.steppedAt = w.steppedAt) (hnow : w.now ≤ w'.now)
      (hnotified : w'.reservations.changed = true
        ∨ (w'.reservations.changed = w.reservations.changed
          ∧ ∀ index deadline, m'.lookup index = some deadline → m.lookup index = some deadline)) :
      Course w m w' m'
  | swept (clock : Nanoseconds) (r : Reservations) (m' : Deadlines) (hloop : w.loop = .awake)
      (hclock : w.steppedAt ≤ clock)
      (hlater : ∀ index deadline, m'.lookup index = some deadline → clock < deadline) :
      Course w m { w with reservations := r, loop := .planning, steppedAt := w.now } m'
  | planned (r : Reservations) (wake : Option Nanoseconds) (hloop : w.loop = .planning)
      (hchanged : r.changed = w.reservations.changed)
      (hwake : ∀ index deadline, m.lookup index = some deadline →
        ∃ time, wake = some time ∧ time ≤ deadline) :
      Course w m { w with reservations := r, loop := .asleep wake, steppedAt := w.now } m
  | woken (r : Reservations) (wake : Option Nanoseconds) (hloop : w.loop = .asleep wake) :
      Course w m { w with reservations := r, loop := .awake, steppedAt := w.now } m

theorem course_of_step {m : Deadlines} {clock : Nanoseconds} {loop : ExpiryLoop} {r : Reservations}
    (h : Represents pieceCount w.reservations m) (hclock : w.steppedAt ≤ clock)
    (hstep : w.loop.step? clock w.reservations = some (loop, r)) :
    ∃ m', Course w m { w with reservations := r, loop := loop, steppedAt := w.now } m'
      ∧ Represents pieceCount r m' := by
  cases hloop : w.loop with
  | awake =>
      rw [hloop] at hstep
      cases hstep
      obtain ⟨m', hrepresents, hlater⟩ := h.sweep clock
      exact ⟨m', .swept clock _ m' hloop hclock hlater, hrepresents⟩
  | planning =>
      rw [hloop] at hstep
      cases hstep
      obtain ⟨hrepresents, hwake, _⟩ := h.plan
      exact ⟨m, .planned _ _ hloop rfl hwake, hrepresents⟩
  | asleep wake =>
      rw [hloop, ExpiryLoop.step?] at hstep
      split at hstep
      · cases hstep
        exact ⟨m, .woken _ wake hloop, h.notice false⟩
      · split at hstep <;> cases hstep
        exact ⟨m, .woken _ wake hloop, h⟩

theorem course_of_happen {m : Deadlines} (h : Represents pieceCount w.reservations m)
    (hstep : w.happen? event = some w') :
    ∃ m', Course w m w' m' ∧ Represents pieceCount w'.reservations m' := by
  cases event with
  | reserve index ttl =>
      cases hstep
      cases hreserve : w.reservations.reserve? w.now index ttl with
      | none => exact ⟨m, .aside _ m rfl rfl (Nat.le_refl _) (Or.inr ⟨rfl, fun _ _ => id⟩), h⟩
      | some r =>
          obtain ⟨m', _, hrepresents⟩ := h.reserve w.now index ttl
          rw [Reservations.answer, hreserve] at hrepresents
          exact ⟨m', .aside _ m' rfl rfl (Nat.le_refl _) (Or.inl (changed_of_reserve? hreserve)),
            hrepresents⟩
  | release index =>
      cases hstep
      obtain ⟨_, hrepresents⟩ := h.release index
      refine ⟨m.erase index, .aside _ _ rfl rfl (Nat.le_refl _)
        (Or.inr ⟨changed_release w.reservations index, fun index' deadline hget => ?_⟩), hrepresents⟩
      by_cases heq : index' = index
      · rw [heq, Finmap.lookup_erase] at hget
        cases hget
      · rwa [Finmap.lookup_erase_ne heq] at hget
  | elapse time =>
      cases hstep
      exact ⟨m, .aside _ m rfl rfl (Nat.le_add_right _ _) (Or.inr ⟨rfl, fun _ _ => id⟩), h⟩
  | step clock =>
      rw [happen?] at hstep
      split at hstep
      · next hclock =>
        obtain ⟨⟨loop, r⟩, hloop, rfl⟩ := Option.map_eq_some_iff.mp hstep
        exact course_of_step h hclock.1 hloop
      · cases hstep
  | timer =>
      rw [happen?] at hstep
      split at hstep
      · next wake hloop =>
        split at hstep <;> cases hstep
        exact ⟨m, .woken _ wake hloop, h⟩
      · cases hstep

/-! ### What every event keeps -/

/-- A loop that sleeps and is not notified wakes up before anything ends. -/
def Covers (w : Watch) (m : Deadlines) : Prop :=
  ∀ wake, w.loop = .asleep wake → w.reservations.changed = false →
    ∀ index deadline, m.lookup index = some deadline → ∃ time, wake = some time ∧ time ≤ deadline

theorem Course.covers {m m' : Deadlines} (h : Course w m w' m') (hcovers : w.Covers m) :
    w'.Covers m' := by
  intro wake hasleep hchanged
  cases h with
  | aside _ _ hloop _ _ hnotified =>
      rcases hnotified with hnotified | ⟨hsame, hfewer⟩
      · rw [hnotified] at hchanged
        cases hchanged
      · exact fun index deadline hget => hcovers wake (hloop ▸ hasleep) (hsame ▸ hchanged) index
          deadline (hfewer index deadline hget)
  | swept _ _ _ hloop => cases hasleep
  | planned _ _ _ _ hwake =>
      cases hasleep
      exact hwake
  | woken => cases hasleep

/-- The loop has ended all that was due at a time, or it has been awake since and will. -/
structure Swept (time : Nanoseconds) (w : Watch) (m : Deadlines) : Prop where
  reached : time ≤ w.now
  awake : w.loop = .awake → time ≤ w.steppedAt
  swept : w.loop ≠ .awake → w.reservations.changed = true
    ∨ ∀ index deadline, m.lookup index = some deadline → time < deadline

theorem Course.sweeps {time : Nanoseconds} {m m' : Deadlines} (h : Course w m w' m')
    (hswept : w.Swept time m) : w'.Swept time m' := by
  cases h with
  | aside _ _ hloop hstepped hnow hnotified =>
      refine ⟨Nat.le_trans hswept.reached hnow, fun hawake => ?_, fun hasleep => ?_⟩
      · rw [hstepped]
        exact hswept.awake (hloop ▸ hawake)
      · rcases hnotified with hnotified | ⟨hsame, hfewer⟩
        · exact Or.inl hnotified
        · rw [hsame]
          exact (hswept.swept (hloop ▸ hasleep)).imp_right fun hlater index deadline hget =>
            hlater index deadline (hfewer index deadline hget)
  | swept clock _ _ hloop hclock hlater =>
      have hpast : time ≤ clock := Nat.le_trans (hswept.awake hloop) hclock
      exact ⟨hswept.reached, nofun, fun _ => Or.inr fun index deadline hget =>
        Nat.lt_of_le_of_lt hpast (hlater index deadline hget)⟩
  | planned _ _ hloop hchanged _ =>
      refine ⟨hswept.reached, nofun, fun _ => ?_⟩
      rw [hchanged]
      exact hswept.swept (by rw [hloop]; exact nofun)
  | woken => exact ⟨hswept.reached, fun _ => hswept.reached, fun hawake => absurd rfl hawake⟩

theorem swept_of_wakes {m : Deadlines} (hwakes : w.Wakes event)
    (hstep : w.happen? event = some w') :
    w'.Swept w.now m := by
  obtain ⟨⟨wake, hloop⟩, hevent⟩ := hwakes
  have hawake : w'.loop = .awake ∧ w'.now = w.now ∧ w'.steppedAt = w.now := by
    rcases hevent with ⟨clock, rfl⟩ | rfl
    · rw [happen?, hloop, ExpiryLoop.step?] at hstep
      split at hstep
      · split at hstep
        · cases hstep
          exact ⟨rfl, rfl, rfl⟩
        · split at hstep <;> cases hstep
          exact ⟨rfl, rfl, rfl⟩
      · cases hstep
    · rw [happen?, hloop] at hstep
      simp only at hstep
      split at hstep <;> cases hstep
      exact ⟨rfl, rfl, rfl⟩
  obtain ⟨hloop', hnow, hstepped⟩ := hawake
  exact ⟨Nat.le_of_eq hnow.symm, fun _ => Nat.le_of_eq hstepped.symm, fun hne => absurd hloop' hne⟩

/-! ### Coming to rest -/

theorem rests_iff : w.Rests ↔ ∃ wake, w.loop = .asleep wake ∧ w.reservations.changed = false
    ∧ ExpiryLoop.isDue w.now wake = false := by
  rw [Rests]
  cases w.loop with
  | awake => exact ⟨nofun, nofun⟩
  | planning => exact ⟨nofun, nofun⟩
  | asleep wake =>
      rw [ExpiryLoop.step?]
      constructor
      · intro h
        split at h
        · cases h
        next hchanged =>
        split at h
        · cases h
        next hdue =>
        exact ⟨wake, rfl, Bool.eq_false_iff.mpr hchanged, Bool.eq_false_iff.mpr hdue⟩
      · rintro ⟨_, hloop, hchanged, hdue⟩
        cases hloop
        rw [hchanged, hdue]
        rfl

theorem le_ceilMilliseconds (time : Nanoseconds) : time ≤ time.ceilMilliseconds :=
  have hround (n : Nat) : n ≤ (n + 999_999) / 1_000_000 * 1_000_000 := by omega
  hround time

theorem ceilMilliseconds_mono {time time' : Nanoseconds} (h : time ≤ time') :
    time.ceilMilliseconds ≤ time'.ceilMilliseconds :=
  Nat.mul_le_mul_right _ (Nat.div_le_div_right (Nat.add_le_add_right h _))

/-- Left to itself, the loop rests after at most this many steps. -/
def Settles (w : Watch) (limit : Nat) : Prop :=
  ∃ count ≤ limit, ∃ w', run? (List.replicate count (.step w.now)) w = some w' ∧ w'.Rests

theorem Settles.of_rests (h : w.Rests) (limit : Nat) : w.Settles limit :=
  ⟨0, Nat.zero_le _, w, rfl, h⟩

theorem Settles.of_step {limit : Nat} (hstepped : w.steppedAt ≤ w.now) (loop : ExpiryLoop)
    (r : Reservations) (hstep : w.loop.step? w.now w.reservations = some (loop, r))
    (h : Settles { w with reservations := r, loop := loop, steppedAt := w.now } limit) :
    w.Settles (limit + 1) := by
  obtain ⟨count, hcount, last, hrun, hrests⟩ := h
  refine ⟨count + 1, Nat.succ_le_succ hcount, last, ?_, hrests⟩
  rw [List.replicate_succ, run?, happen?, if_pos ⟨hstepped, Nat.le_refl _⟩, hstep]
  exact hrun

/-- A loop that was not notified sweeps, and what is left ends later. -/
theorem settles_of_awake {m : Deadlines} (h : Represents pieceCount w.reservations m)
    (hstepped : w.steppedAt ≤ w.now) (hloop : w.loop = .awake)
    (hchanged : w.reservations.changed = false) : w.Settles 2 := by
  obtain ⟨m', hswept, hlater⟩ := h.sweep w.now
  obtain ⟨_, _, hnext⟩ := hswept.plan
  refine .of_step hstepped .planning _ (by rw [hloop]; rfl) ?_
  refine .of_step (Nat.le_refl _) (.asleep (w.reservations.expire w.now).2.nextDeadline.1) _ rfl
    (.of_rests ?_ 0)
  refine rests_iff.mpr ⟨_, rfl, hchanged, ?_⟩
  cases hwake : (w.reservations.expire w.now).2.nextDeadline.1 with
  | none => rfl
  | some time =>
      obtain ⟨index, hget⟩ := hnext time hwake
      exact decide_eq_false (Nat.not_le_of_lt
        (Nat.lt_of_lt_of_le (hlater index time hget) (le_ceilMilliseconds time)))

/-- A loop that sleeps may have been notified, or late for its timer. -/
theorem settles_of_asleep {m : Deadlines} {wake : Option Nanoseconds}
    (h : Represents pieceCount w.reservations m) (hstepped : w.steppedAt ≤ w.now)
    (hloop : w.loop = .asleep wake) : w.Settles 3 := by
  cases hchanged : w.reservations.changed with
  | true =>
      refine .of_step hstepped .awake { w.reservations with changed := false } ?_
        (settles_of_awake (h.notice false) (Nat.le_refl _) rfl rfl)
      rw [hloop, ExpiryLoop.step?, if_pos hchanged]
  | false =>
      cases hdue : ExpiryLoop.isDue w.now wake with
      | true =>
          refine .of_step hstepped .awake w.reservations ?_
            (settles_of_awake h (Nat.le_refl _) rfl hchanged)
          rw [hloop, ExpiryLoop.step?, hchanged, hdue]
          rfl
      | false => exact .of_rests (rests_iff.mpr ⟨wake, hloop, hchanged, hdue⟩) 3

theorem settles_of_planning {m : Deadlines} (h : Represents pieceCount w.reservations m)
    (hstepped : w.steppedAt ≤ w.now) (hloop : w.loop = .planning) : w.Settles 4 :=
  .of_step hstepped (.asleep w.reservations.nextDeadline.1) _ (by rw [hloop]; rfl)
    (settles_of_asleep h.plan.1 (Nat.le_refl _) rfl)

theorem settles {m : Deadlines} (h : Represents pieceCount w.reservations m)
    (hstepped : w.steppedAt ≤ w.now) : w.Settles 5 := by
  cases hloop : w.loop with
  | awake =>
      obtain ⟨m', hswept, _⟩ := h.sweep w.now
      exact .of_step hstepped .planning _ (by rw [hloop]; rfl)
        (settles_of_planning hswept (Nat.le_refl _) rfl)
  | planning =>
      obtain ⟨count, hcount, hrest⟩ := settles_of_planning h hstepped hloop
      exact ⟨count, by omega, hrest⟩
  | asleep wake =>
      obtain ⟨count, hcount, hrest⟩ := settles_of_asleep h hstepped hloop
      exact ⟨count, by omega, hrest⟩

/-! ### Runs -/

def Attended (pieceCount : Nat) (w : Watch) : Prop :=
  w.steppedAt ≤ w.now ∧ ∃ m, Represents pieceCount w.reservations m ∧ w.Covers m

theorem attended_start (pieceCount : Nat) (now : Nanoseconds) :
    (start pieceCount now).Attended pieceCount :=
  ⟨Nat.le_refl _, ∅, represents_empty pieceCount, fun _ hasleep => nomatch hasleep⟩

theorem attended_happen (h : w.Attended pieceCount) (hstep : w.happen? event = some w') :
    w'.Attended pieceCount := by
  obtain ⟨hstepped, m, hrepresents, hcovers⟩ := h
  obtain ⟨m', hcourse, hrepresents'⟩ := course_of_happen hrepresents hstep
  refine ⟨?_, m', hrepresents', hcourse.covers hcovers⟩
  cases hcourse with
  | aside _ _ _ hstepped' hnow _ => exact hstepped' ▸ Nat.le_trans hstepped hnow
  | swept | planned | woken => exact Nat.le_refl _

theorem attended_run {now : Nanoseconds} (hrun : run? events (start pieceCount now) = some w) :
    w.Attended pieceCount :=
  run_invariant attended_happen (attended_start pieceCount now) hrun

theorem swept_run {time : Nanoseconds} {m : Deadlines}
    (h : Represents pieceCount w.reservations m) (hswept : w.Swept time m)
    (hrun : run? events w = some w') :
    ∃ m', Represents pieceCount w'.reservations m' ∧ w'.Swept time m' := by
  refine run_invariant (P := fun w => ∃ m, Represents pieceCount w.reservations m ∧ w.Swept time m)
    ?_ ⟨m, h, hswept⟩ hrun
  rintro w event w' ⟨m, h, hswept⟩ hstep
  obtain ⟨m', hcourse, h'⟩ := course_of_happen h hstep
  exact ⟨m', h', hcourse.sweeps hswept⟩

/-- However reserving and releasing pieces comes between the steps of the loop: while it sleeps and
is not notified it is set to wake up before any reservation ends, and without a timer there is none.
So nothing that is due is left when it rests, timers going off at whole milliseconds; once it has
been woken up and rests again nothing is left that was due when it woke up; and left to itself it
always comes to rest. -/
theorem never_oversleeps {now : Nanoseconds} (hrun : run? events (start pieceCount now) = some w) :
    (∀ wake, w.loop = .asleep wake → w.reservations.changed = false →
        w.reservations.EachDeadline fun deadline => ∃ time, wake = some time ∧ time ≤ deadline)
      ∧ (w.Rests → w.reservations.EachDeadline fun deadline => w.now < deadline.ceilMilliseconds)
      ∧ (∀ event later w', w.Wakes event → run? (event :: later) w = some w' → w'.Rests →
        w'.reservations.EachDeadline fun deadline => w.now < deadline)
      ∧ ∃ count ≤ 5, ∃ w', run? (List.replicate count (.step w.now)) w = some w' ∧ w'.Rests := by
  obtain ⟨hstepped, m, hrepresents, hcovers⟩ := attended_run hrun
  refine ⟨fun wake hloop hchanged => hrepresents.eachDeadline (hcovers wake hloop hchanged),
    fun hrests => ?_, fun event later w' hwakes hlater hrests => ?_, settles hrepresents hstepped⟩
  · obtain ⟨wake, hloop, hchanged, hdue⟩ := rests_iff.mp hrests
    refine hrepresents.eachDeadline fun index deadline hget => ?_
    obtain ⟨time, rfl, htime⟩ := hcovers wake hloop hchanged index deadline hget
    exact Nat.lt_of_lt_of_le (Nat.lt_of_not_le (of_decide_eq_false hdue))
      (ceilMilliseconds_mono htime)
  · obtain ⟨next, hnext, hrest⟩ := Option.bind_eq_some_iff.mp hlater
    obtain ⟨m', _, hrepresents'⟩ := course_of_happen hrepresents hnext
    obtain ⟨m'', hrepresents'', hswept⟩ :=
      swept_run hrepresents' (swept_of_wakes hwakes hnext) hrest
    obtain ⟨wake, hloop, hchanged, _⟩ := rests_iff.mp hrests
    rcases hswept.swept (by rw [hloop]; exact nofun) with hnotified | hover
    · rw [hchanged] at hnotified
      cases hnotified
    · exact hrepresents''.eachDeadline hover

/-- Piece 0 is reserved again while the loop sleeps, and an entry of the queue is left over; the
loop is woken by the timer and not by the notification. -/
theorem never_oversleeps_leftover :
    let w : Watch := {
      reservations := ⟨⟨4, [160]⟩, [(5_000_000, 2), (10_000_000, 0), (20_000_000, 0)],
        ⟨[(2, 5_000_000), (0, 20_000_000)]⟩, true⟩
      loop := .asleep (some 10_000_000)
      now := 12_000_000
      steppedAt := 0 }
    let w' : Watch := {
      reservations := ⟨⟨4, [128]⟩, [(20_000_000, 0)], ⟨[(0, 20_000_000)]⟩, false⟩
      loop := .asleep (some 20_000_000)
      now := 12_000_000
      steppedAt := 12_000_000 }
    run? [.reserve 0 10_000_000, .step 0, .reserve 1 0, .step 0, .step 0, .step 0, .step 0,
        .reserve 2 5_000_000, .release 0, .reserve 0 20_000_000, .elapse 12_000_000]
      (start 4 0) = some w
    ∧ w.Wakes .timer
    ∧ run? (.timer :: List.replicate 5 (.step 12_000_000)) w = some w'
    ∧ w'.Rests
    ∧ w'.reservations.EachDeadline fun deadline => w.now < deadline := by
  intro w w'
  have hrun : run? [.reserve 0 10_000_000, .step 0, .reserve 1 0, .step 0, .step 0, .step 0,
      .step 0, .reserve 2 5_000_000, .release 0, .reserve 0 20_000_000, .elapse 12_000_000]
      (start 4 0) = some w := by decide +kernel
  have hlater : run? (.timer :: List.replicate 5 (.step 12_000_000)) w
      = some w' := by decide +kernel
  have hwakes : w.Wakes .timer := ⟨⟨_, rfl⟩, .inr rfl⟩
  have hrests : w'.Rests := rests_iff.mpr ⟨_, rfl, rfl, by decide⟩
  exact ⟨hrun, hwakes, hlater, hrests,
    (never_oversleeps hrun).2.2.1 _ _ _ hwakes hlater hrests⟩

end Watch

end TorrentCore
