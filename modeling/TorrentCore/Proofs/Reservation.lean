import Mathlib.Data.Finmap
import Mathlib.Data.List.TakeWhile
import TorrentCore.Proofs.Bitfield
import TorrentCore.Proofs.Table
import TorrentCore.Reservation

/-!
# Reservations as a finite map

Reservations are kept in three places: a bit field, a table of deadlines, and a queue from which
entries are dropped late. What is asked of them is answered as a finite map from pieces to deadlines
would answer it. The invariant is `Represents`: the set and the table say the same as the map, and
the queue, which is sorted, has at least one entry for every deadline of the map. Nothing is said of
the other entries, so whatever was left over in the queue, once or several times, makes no
difference.
-/

namespace TorrentCore

/-- The deadline of every reserved piece, and nothing else. -/
abbrev Deadlines := Finmap fun _ : Nat => Nanoseconds

namespace Reservations

inductive Query where
  | reserve (now : Nanoseconds) (index : Nat) (ttl : Nanoseconds)
  | release (index : Nat)
  | expire (now : Nanoseconds)
  | nextDeadline
  | isReserved (index : Nat)
  | size

inductive Answer where
  | truth (value : Bool)
  | pieces (indices : List Nat)
  | time (deadline : Option Nanoseconds)
  | count (value : Nat)

def answer (r : Reservations) : Query → Answer × Reservations
  | .reserve now index ttl => match r.reserve? now index ttl with
    | some r' => (.truth true, r')
    | none => (.truth false, r)
  | .release index => (.truth (r.release index).1, (r.release index).2)
  | .expire now => (.pieces (r.expire now).1, (r.expire now).2)
  | .nextDeadline => (.time r.nextDeadline.1, r.nextDeadline.2)
  | .isReserved index => (.truth (r.isReserved index), r)
  | .size => (.count r.size, r)

def answers : List Query → Reservations → List Answer × Reservations
  | [], r => ([], r)
  | q :: rest, r =>
    let (a, r) := r.answer q
    let (as, r) := answers rest r
    (a :: as, r)

end Reservations

namespace Deadlines

open Reservations

def Due (m : Deadlines) (now : Nanoseconds) (index : Nat) : Prop :=
  ∃ deadline, m.lookup index = some deadline ∧ deadline ≤ now

/-- One piece is due before another one, or at the same time and has the smaller index. -/
def Earlier (m : Deadlines) (index index' : Nat) : Prop :=
  ∀ deadline deadline', m.lookup index = some deadline → m.lookup index' = some deadline' →
    deadline < deadline' ∨ (deadline = deadline' ∧ index < index')

/-- How a finite map answers. -/
inductive Answers (pieceCount : Nat) (m : Deadlines) : Query → Answer → Deadlines → Prop
  | reserved (now : Nanoseconds) (index : Nat) (ttl : Nanoseconds) (hindex : index < pieceCount)
      (hfree : index ∉ m) :
      Answers pieceCount m (.reserve now index ttl) (.truth true) (m.insert index (now + ttl))
  | notReserved (now : Nanoseconds) (index : Nat) (ttl : Nanoseconds)
      (htaken : ¬ (index < pieceCount ∧ index ∉ m)) :
      Answers pieceCount m (.reserve now index ttl) (.truth false) m
  | released (index : Nat) :
      Answers pieceCount m (.release index) (.truth (decide (index ∈ m))) (m.erase index)
  /-- Every piece that is due is listed once, in its order, and only these are taken out. -/
  | expired (now : Nanoseconds) (indices : List Nat) (m' : Deadlines) (hnodup : indices.Nodup)
      (hmem : ∀ index, index ∈ indices ↔ m.Due now index) (hsorted : indices.Pairwise m.Earlier)
      (hrest : ∀ index, m'.lookup index = if index ∈ indices then none else m.lookup index) :
      Answers pieceCount m (.expire now) (.pieces indices) m'
  | nothingDue (hempty : m = ∅) : Answers pieceCount m .nextDeadline (.time none) m
  | firstDue (index : Nat) (deadline : Nanoseconds) (hlookup : m.lookup index = some deadline)
      (hfirst : ∀ index' deadline', m.lookup index' = some deadline' → deadline ≤ deadline') :
      Answers pieceCount m .nextDeadline (.time (some deadline)) m
  | isReserved (index : Nat) :
      Answers pieceCount m (.isReserved index) (.truth (decide (index ∈ m))) m
  | size : Answers pieceCount m .size (.count m.keys.card) m

/-- How a finite map answers several questions, one after the other. -/
inductive AnswersAll (pieceCount : Nat) : Deadlines → List Query → List Answer → Deadlines → Prop
  | nil (m : Deadlines) : AnswersAll pieceCount m [] [] m
  | cons {m m' m'' : Deadlines} {q : Query} {a : Answer} {queries : List Query}
      {replies : List Answer} (hfirst : m.Answers pieceCount q a m')
      (hrest : AnswersAll pieceCount m' queries replies m'') :
      AnswersAll pieceCount m (q :: queries) (a :: replies) m''

end Deadlines

namespace Reservations

/-- The reservations say what the map says. -/
structure Represents (pieceCount : Nat) (r : Reservations) (m : Deadlines) : Prop where
  wellFormed : r.reserved.WellFormed
  pieceCount_eq : r.reserved.pieceCount = pieceCount
  contains_eq : ∀ index, r.reserved.contains index = decide (index ∈ m)
  get_eq : ∀ index, r.deadlines.get? index = m.lookup index
  nodup : r.deadlines.keys.Nodup
  sorted : r.queue.Pairwise fun e e' => before e e' = true
  queued : ∀ index deadline, m.lookup index = some deadline → (deadline, index) ∈ r.queue

theorem represents_empty (pieceCount : Nat) : Represents pieceCount (empty pieceCount) ∅ where
  wellFormed := Bitfield.wellFormed_empty pieceCount
  pieceCount_eq := rfl
  contains_eq index := by
    rw [empty, Bitfield.contains_empty, decide_eq_false Finmap.notMem_empty]
  get_eq index := by
    rw [Finmap.lookup_empty]
    rfl
  nodup := List.nodup_nil
  sorted := .nil
  queued index deadline h := by
    rw [Finmap.lookup_empty] at h
    cases h

/-! ### The order of the queue -/

theorem before_iff {e e' : Nanoseconds × Nat} :
    before e e' = true ↔ e.1 < e'.1 ∨ (e.1 = e'.1 ∧ e.2 ≤ e'.2) := by
  simp only [before, Bool.or_eq_true, Bool.and_eq_true, decide_eq_true_eq, beq_iff_eq]

theorem before_trans {e e' e'' : Nanoseconds × Nat} (h : before e e' = true)
    (h' : before e' e'' = true) : before e e'' = true := by
  rw [before_iff] at h h' ⊢
  grind

theorem before_of_not {e e' : Nanoseconds × Nat} (h : ¬ before e e' = true) :
    before e' e = true := by
  rw [before_iff] at h ⊢
  grind

theorem mem_enqueue {entry e : Nanoseconds × Nat} {queue : List (Nanoseconds × Nat)} :
    e ∈ enqueue entry queue ↔ e = entry ∨ e ∈ queue := by
  induction queue with
  | nil => rw [enqueue, List.mem_singleton, List.mem_nil_iff, or_false]
  | cons first queue ih =>
      rw [enqueue]
      split
      · rw [List.mem_cons]
      · rw [List.mem_cons, ih, List.mem_cons]
        exact or_left_comm

theorem sorted_enqueue (entry : Nanoseconds × Nat) {queue : List (Nanoseconds × Nat)}
    (h : queue.Pairwise fun e e' => before e e' = true) :
    (enqueue entry queue).Pairwise fun e e' => before e e' = true := by
  induction queue with
  | nil => exact List.pairwise_singleton _ _
  | cons first queue ih =>
      obtain ⟨hfirst, hqueue⟩ := List.pairwise_cons.mp h
      rw [enqueue]
      split
      · next hbefore =>
        refine List.pairwise_cons.mpr ⟨fun e he => ?_, h⟩
        rcases List.mem_cons.mp he with rfl | he
        · exact hbefore
        · exact before_trans hbefore (hfirst e he)
      · next hbefore =>
        refine List.pairwise_cons.mpr ⟨fun e he => ?_, ih hqueue⟩
        rcases mem_enqueue.mp he with rfl | he
        · exact before_of_not hbefore
        · exact hfirst e he

/-! ### One question at a time -/

theorem isReserved_of_reserve? {r r' : Reservations} {now ttl : Nanoseconds} {index : Nat}
    (hwell : r.reserved.WellFormed) (h : r.reserve? now index ttl = some r') :
    r.isReserved index = false ∧ r'.isReserved index = true := by
  unfold reserve? at h
  split at h
  · next reserved hmark =>
    obtain ⟨hindex, hnew, rfl⟩ := Bitfield.mark_eq_ok_iff.mp hmark
    cases h
    refine ⟨by simpa [isReserved] using hnew, ?_⟩
    show (r.reserved.insert index).contains index = true
    rw [Bitfield.contains_insert hwell hindex, decide_eq_true rfl, Bool.or_true]
  · cases h

namespace Represents

variable {pieceCount : Nat} {r : Reservations} {m : Deadlines}

theorem lt_of_mem (h : Represents pieceCount r m) {index : Nat} (hindex : index ∈ m) :
    index < pieceCount := by
  rw [← h.pieceCount_eq]
  refine Bitfield.lt_of_contains (f := r.reserved) ?_
  rw [h.contains_eq, decide_eq_true hindex]

theorem isReserved_eq (h : Represents pieceCount r m) (index : Nat) :
    r.isReserved index = (m.lookup index).isSome := by
  rw [isReserved, h.contains_eq, Bool.eq_iff_iff, decide_eq_true_iff, Finmap.lookup_isSome]

theorem size_eq (h : Represents pieceCount r m) : r.size = m.keys.card := by
  have hkeys : r.deadlines.keys.toFinset = m.keys := by
    ext index
    rw [List.mem_toFinset, Finmap.mem_keys, ← Finmap.lookup_isSome, ← h.get_eq index]
    by_cases hmem : index ∈ r.deadlines.keys
    · have hget : r.deadlines.get? index ≠ none := fun hnone => Table.get?_eq_none_iff.mp hnone hmem
      simpa only [hmem, true_iff] using Option.isSome_iff_ne_none.mpr hget
    · rw [Table.get?_eq_none_iff.mpr hmem]
      simpa using hmem
  rw [← hkeys, List.toFinset_card_of_nodup h.nodup, Table.keys, List.length_map]
  rfl

theorem reserve (h : Represents pieceCount r m) (now : Nanoseconds) (index : Nat)
    (ttl : Nanoseconds) : ∃ m', m.Answers pieceCount (.reserve now index ttl)
      (r.answer (.reserve now index ttl)).1 m'
      ∧ Represents pieceCount (r.answer (.reserve now index ttl)).2 m' := by
  by_cases hfree : index < pieceCount ∧ index ∉ m
  · obtain ⟨hindex, hfree⟩ := hfree
    have hmark : r.reserved.mark index = .ok (true, r.reserved.insert index) :=
      Bitfield.mark_eq_ok_iff.mpr ⟨h.pieceCount_eq ▸ hindex,
        by rw [h.contains_eq, decide_eq_false hfree]; rfl, rfl⟩
    have hanswer : r.answer (.reserve now index ttl) = (.truth true, {
        reserved := r.reserved.insert index
        queue := enqueue (now + ttl, index) r.queue
        deadlines := r.deadlines.insert index (now + ttl)
        changed := true }) := by
      simp only [answer, reserve?, hmark]
    rw [hanswer]
    refine ⟨m.insert index (now + ttl), .reserved now index ttl hindex hfree, ?_⟩
    refine ⟨h.wellFormed.insert index, h.pieceCount_eq, fun index' => ?_, fun index' => ?_, ?_,
      sorted_enqueue _ h.sorted, fun index' deadline hget => ?_⟩
    · show (r.reserved.insert index).contains index' = _
      rw [Bitfield.contains_insert h.wellFormed (h.pieceCount_eq ▸ hindex), h.contains_eq,
        ← Bool.decide_or]
      exact decide_eq_decide.mpr (by rw [Finmap.mem_insert, or_comm])
    · show (r.deadlines.insert index (now + ttl)).get? index' = _
      rw [Table.get?_insert]
      split
      · next heq => rw [heq, Finmap.lookup_insert]
      · next hne => rw [Finmap.lookup_insert_of_ne m hne, h.get_eq]
    · exact Table.nodup_keys_insert h.nodup index (now + ttl)
    · show (deadline, index') ∈ enqueue (now + ttl, index) r.queue
      rw [mem_enqueue]
      by_cases heq : index' = index
      · subst heq
        rw [Finmap.lookup_insert] at hget
        cases hget
        exact Or.inl rfl
      · rw [Finmap.lookup_insert_of_ne m heq] at hget
        exact Or.inr (h.queued index' deadline hget)
  · have hnone : r.reserve? now index ttl = none := by
      unfold reserve?
      split
      · next reserved hmark =>
        obtain ⟨hindex, hnew, _⟩ := Bitfield.mark_eq_ok_iff.mp hmark
        rw [h.contains_eq] at hnew
        exact absurd ⟨h.pieceCount_eq ▸ hindex, by simpa using hnew⟩ hfree
      · rfl
    have hanswer : r.answer (.reserve now index ttl) = (.truth false, r) := by
      simp only [answer, hnone]
    rw [hanswer]
    exact ⟨m, .notReserved now index ttl hfree, h⟩

/-- A piece is taken out of the set and the table, and entries of the queue stay behind. -/
theorem erase (h : Represents pieceCount r m) {index : Nat} (hindex : index < pieceCount)
    {queue : List (Nanoseconds × Nat)} (hsorted : queue.Pairwise fun e e' => before e e' = true)
    (hqueued : ∀ index' deadline, index' ≠ index → m.lookup index' = some deadline →
      (deadline, index') ∈ queue) :
    Represents pieceCount { r with
      reserved := r.reserved.erase index
      queue := queue
      deadlines := r.deadlines.erase index } (m.erase index) where
  wellFormed := h.wellFormed.erase index
  pieceCount_eq := h.pieceCount_eq
  contains_eq index' := by
    show (r.reserved.erase index).contains index' = _
    rw [Bitfield.contains_erase h.wellFormed (h.pieceCount_eq ▸ hindex), h.contains_eq,
      ← decide_not, ← Bool.decide_and]
    exact decide_eq_decide.mpr (by rw [Finmap.mem_erase, and_comm])
  get_eq index' := by
    show (r.deadlines.erase index).get? index' = _
    rw [Table.get?_erase]
    split
    · next heq => rw [heq, Finmap.lookup_erase]
    · next hne => rw [Finmap.lookup_erase_ne hne, h.get_eq]
  nodup := Table.nodup_keys_erase h.nodup index
  sorted := hsorted
  queued index' deadline hget := by
    by_cases heq : index' = index
    · subst heq
      rw [Finmap.lookup_erase] at hget
      cases hget
    · rw [Finmap.lookup_erase_ne heq] at hget
      exact hqueued index' deadline heq hget

theorem release (h : Represents pieceCount r m) (index : Nat) :
    m.Answers pieceCount (.release index) (r.answer (.release index)).1 (m.erase index)
      ∧ Represents pieceCount (r.answer (.release index)).2 (m.erase index) := by
  by_cases hindex : index < pieceCount
  · have hanswer : r.answer (.release index) = (.truth (decide (index ∈ m)), { r with
        reserved := r.reserved.erase index
        deadlines := r.deadlines.erase index }) := by
      have hcount : index < r.reserved.pieceCount := h.pieceCount_eq ▸ hindex
      simp only [answer, Reservations.release, Bitfield.unmark, if_pos hcount, h.contains_eq]
    rw [hanswer]
    exact ⟨.released index,
      h.erase hindex h.sorted fun index' deadline _ => h.queued index' deadline⟩
  · have hfree : index ∉ m := fun hmem => hindex (h.lt_of_mem hmem)
    have hcount : ¬ index < r.reserved.pieceCount := h.pieceCount_eq ▸ hindex
    have hanswer : r.answer (.release index) = (.truth (decide (index ∈ m)), { r with
        deadlines := r.deadlines.erase index }) := by
      simp only [answer, Reservations.release, Bitfield.unmark, if_neg hcount,
        decide_eq_false hfree]
    have hsame : m.erase index = m := Finmap.ext_lookup fun index' => by
      by_cases heq : index' = index
      · rw [heq, Finmap.lookup_erase, Finmap.lookup_eq_none.mpr hfree]
      · rw [Finmap.lookup_erase_ne heq]
    rw [hanswer]
    refine ⟨.released index, ?_⟩
    rw [hsame]
    refine ⟨h.wellFormed, h.pieceCount_eq, h.contains_eq, fun index' => ?_,
      Table.nodup_keys_erase h.nodup index, h.sorted, h.queued⟩
    show (r.deadlines.erase index).get? index' = _
    rw [Table.get?_erase]
    split
    · next heq => rw [heq, Finmap.lookup_eq_none.mpr hfree]
    · exact h.get_eq index'

/-- Entries that were left over at the front of the queue may be dropped. -/
theorem withQueue (h : Represents pieceCount r m) {queue : List (Nanoseconds × Nat)}
    (hsorted : queue.Pairwise fun e e' => before e e' = true)
    (hqueued : ∀ index deadline, m.lookup index = some deadline → (deadline, index) ∈ queue) :
    Represents pieceCount { r with queue := queue } m :=
  ⟨h.wellFormed, h.pieceCount_eq, h.contains_eq, h.get_eq, h.nodup, hsorted, hqueued⟩

theorem isLive_iff (h : Represents pieceCount r m) (e : Nanoseconds × Nat) :
    isLive r.deadlines e = true ↔ m.lookup e.2 = some e.1 := by
  rw [isLive, h.get_eq, beq_iff_eq]

theorem discardStale (h : Represents pieceCount r m) :
    Represents pieceCount r.discardStale m := by
  refine h.withQueue (h.sorted.sublist (List.dropWhile_sublist _)) fun index deadline hget => ?_
  have hmem := h.queued index deadline hget
  rw [← List.takeWhile_append_dropWhile (p := fun e => !isLive r.deadlines e) (l := r.queue),
    List.mem_append] at hmem
  refine hmem.resolve_left fun htaken => ?_
  have hstale := List.mem_takeWhile_imp htaken
  rw [(h.isLive_iff (deadline, index)).mpr hget] at hstale
  cases hstale

theorem nextDeadline (h : Represents pieceCount r m) :
    m.Answers pieceCount .nextDeadline (r.answer .nextDeadline).1 m
      ∧ Represents pieceCount (r.answer .nextDeadline).2 m := by
  refine ⟨?_, h.discardStale⟩
  show m.Answers pieceCount .nextDeadline (.time (r.discardStale.queue.head?.map Prod.fst)) m
  have hkept := h.discardStale
  cases hqueue : r.discardStale.queue with
  | nil =>
      refine .nothingDue (Finmap.ext_lookup fun index => ?_)
      rw [Finmap.lookup_empty, Option.eq_none_iff_forall_ne_some]
      intro deadline hget
      have hmem := hkept.queued index deadline hget
      rw [hqueue] at hmem
      cases hmem
  | cons e queue =>
      have hlive : isLive r.deadlines e = true := by
        have hhead := List.head?_dropWhile_not (fun e => !isLive r.deadlines e) r.queue
        rw [show r.queue.dropWhile (fun e => !isLive r.deadlines e) = e :: queue from hqueue] at hhead
        simpa using hhead
      have hsorted := hkept.sorted
      rw [hqueue, List.pairwise_cons] at hsorted
      refine .firstDue e.2 e.1 ((h.isLive_iff e).mp hlive) fun index deadline hget => ?_
      have hmem := hkept.queued index deadline hget
      rw [hqueue, List.mem_cons] at hmem
      rcases hmem with heq | hmem
      · rw [← heq]
      · have hbefore := before_iff.mp (hsorted.1 _ hmem)
        grind

end Represents

/-! ### Ending what is due -/

theorem unmark_of_lookup {pieceCount : Nat} {r : Reservations} {m : Deadlines}
    (h : Represents pieceCount r m) {index : Nat} {deadline : Nanoseconds}
    (hget : m.lookup index = some deadline) :
    r.reserved.unmark index = .ok (true, r.reserved.erase index) := by
  have hmem : index ∈ m := Finmap.mem_of_lookup_eq_some hget
  have hcount : index < r.reserved.pieceCount := h.pieceCount_eq ▸ h.lt_of_mem hmem
  rw [Bitfield.unmark, if_pos hcount, h.contains_eq, decide_eq_true hmem]

theorem answers_cons {pieceCount : Nat} {m m' : Deadlines} {now deadline : Nanoseconds}
    {index : Nat}
    {indices : List Nat} (hget : m.lookup index = some deadline) (hdue : deadline ≤ now)
    (hfirst : ∀ index' deadline', index' ≠ index → m.lookup index' = some deadline' →
      before (deadline, index) (deadline', index') = true)
    (hrest : Deadlines.Answers pieceCount (m.erase index) (.expire now) (.pieces indices) m') :
    m.Answers pieceCount (.expire now) (.pieces (index :: indices)) m' := by
  cases hrest with
  | expired _ _ _ hnodup hmem hsorted hlookup =>
  have hne : ∀ index' ∈ indices, index' ≠ index := by
    rintro index' hindex' rfl
    obtain ⟨deadline', hget', _⟩ := (hmem index').mp hindex'
    rw [Finmap.lookup_erase] at hget'
    cases hget'
  refine .expired now _ _ (List.nodup_cons.mpr ⟨fun hself => hne index hself rfl, hnodup⟩)
    (fun index' => ?_) (List.pairwise_cons.mpr ⟨fun index' hindex' => ?_, ?_⟩) fun index' => ?_
  · rw [List.mem_cons]
    by_cases heq : index' = index
    · subst heq
      exact ⟨fun _ => ⟨deadline, hget, hdue⟩, fun _ => Or.inl rfl⟩
    · rw [hmem, Deadlines.Due, Deadlines.Due, Finmap.lookup_erase_ne heq]
      exact or_iff_right heq
  · intro deadline' deadline'' hget' hget''
    rw [hget] at hget'
    cases hget'
    have hbefore := before_iff.mp (hfirst index' deadline'' (hne index' hindex') hget'')
    have hindices := hne index' hindex'
    grind
  · refine hsorted.imp_of_mem fun {i j} hi hj hearlier => ?_
    rw [Deadlines.Earlier, Finmap.lookup_erase_ne (hne i hi),
      Finmap.lookup_erase_ne (hne j hj)] at hearlier
    exact hearlier
  · rw [hlookup]
    by_cases heq : index' = index
    · subst heq
      rw [Finmap.lookup_erase, ite_self, if_pos List.mem_cons_self]
    · rw [Finmap.lookup_erase_ne heq]
      simp only [List.mem_cons, heq, false_or]

theorem answers_nil {pieceCount : Nat} {m : Deadlines} {now : Nanoseconds}
    (hlater : ∀ index, ¬ m.Due now index) : m.Answers pieceCount (.expire now) (.pieces []) m := by
  refine .expired now [] m .nil (fun index => ?_) .nil fun index => ?_
  · rw [List.mem_nil_iff, false_iff]
    exact hlater index
  · rw [if_neg (List.not_mem_nil)]

theorem Represents.not_due {pieceCount : Nat} {r : Reservations} {m : Deadlines}
    (h : Represents pieceCount r m) {now deadline : Nanoseconds} {index : Nat}
    {queue : List (Nanoseconds × Nat)} (hqueue : r.queue = (deadline, index) :: queue)
    (hlater : now < deadline) (index' : Nat) : ¬ m.Due now index' := by
  rintro ⟨deadline', hget, hdue⟩
  have hsorted := h.sorted
  have hmem := h.queued index' deadline' hget
  rw [hqueue, List.pairwise_cons] at hsorted
  rw [hqueue, List.mem_cons] at hmem
  rcases hmem with heq | hmem
  · cases heq
    exact Nat.not_lt.mpr hdue hlater
  · have hbefore := before_iff.mp (hsorted.1 _ hmem)
    grind

/-- The induction is on the queue: what has been dropped from its front is no entry of the map. -/
theorem Represents.expire {pieceCount : Nat} {r : Reservations} {m : Deadlines}
    (h : Represents pieceCount r m) (now : Nanoseconds) :
    ∃ m', m.Answers pieceCount (.expire now) (r.answer (.expire now)).1 m'
      ∧ Represents pieceCount (r.answer (.expire now)).2 m' := by
  show ∃ m', m.Answers pieceCount (.expire now)
      (.pieces (expireQueue now r.queue r.reserved r.deadlines).1) m'
    ∧ Represents pieceCount { r with
      reserved := (expireQueue now r.queue r.reserved r.deadlines).2.2.1
      queue := (expireQueue now r.queue r.reserved r.deadlines).2.1
      deadlines := (expireQueue now r.queue r.reserved r.deadlines).2.2.2 } m'
  generalize hqueue : r.queue = queue
  induction queue generalizing r m with
  | nil =>
      refine ⟨m, answers_nil fun index => ?_, ?_⟩
      · rintro ⟨deadline, hget, _⟩
        have hmem := h.queued index deadline hget
        rw [hqueue] at hmem
        cases hmem
      · refine h.withQueue .nil fun index deadline hget => ?_
        rw [expireQueue, ← hqueue]
        exact h.queued index deadline hget
  | cons e queue ih =>
      obtain ⟨deadline, index⟩ := e
      have hsorted := h.sorted
      rw [hqueue, List.pairwise_cons] at hsorted
      have hfirst : ∀ index' deadline', m.lookup index' = some deadline' →
          (deadline', index') = (deadline, index) ∨ (deadline', index') ∈ queue := by
        intro index' deadline' hget
        have hmem := h.queued index' deadline' hget
        rwa [hqueue, List.mem_cons] at hmem
      rw [expireQueue]
      split
      · next hlater =>
        refine ⟨m, answers_nil (h.not_due hqueue hlater), ?_⟩
        rw [← hqueue]
        exact h
      next hdue =>
      split
      · next hlive =>
        have hget := (h.isLive_iff (deadline, index)).mp hlive
        have hothers : ∀ index' deadline', index' ≠ index → m.lookup index' = some deadline' →
            (deadline', index') ∈ queue := by
          intro index' deadline' hne hget'
          exact (hfirst index' deadline' hget').resolve_left fun heq => hne (congrArg Prod.snd heq)
        have herased := h.erase (h.lt_of_mem (Finmap.mem_of_lookup_eq_some hget)) hsorted.2 hothers
        obtain ⟨m', hanswer, hrepresents⟩ := ih herased rfl
        rw [unmark_of_lookup h hget]
        exact ⟨m', answers_cons hget (Nat.not_lt.mp hdue)
          (fun index' deadline' hne hget' => hsorted.1 _ (hothers index' deadline' hne hget'))
          hanswer, hrepresents⟩
      · next hstale =>
        have hothers : ∀ index' deadline', m.lookup index' = some deadline' →
            (deadline', index') ∈ queue := by
          intro index' deadline' hget
          refine (hfirst index' deadline' hget).resolve_left fun heq => hstale ?_
          cases heq
          exact (h.isLive_iff (deadline, index)).mpr hget
        obtain ⟨m', hanswer, hrepresents⟩ := ih (h.withQueue hsorted.2 hothers) rfl
        exact ⟨m', hanswer, hrepresents⟩

/-! ### Any questions -/

theorem Represents.answer {pieceCount : Nat} {r : Reservations} {m : Deadlines}
    (h : Represents pieceCount r m) (q : Query) :
    ∃ m', m.Answers pieceCount q (r.answer q).1 m' ∧ Represents pieceCount (r.answer q).2 m' := by
  cases q with
  | reserve now index ttl => exact h.reserve now index ttl
  | release index => exact ⟨_, h.release index⟩
  | expire now => exact h.expire now
  | nextDeadline => exact ⟨_, h.nextDeadline⟩
  | isReserved index =>
      have hanswer : (r.answer (.isReserved index)).1 = .truth (decide (index ∈ m)) :=
        congrArg Answer.truth (h.contains_eq index)
      rw [hanswer]
      exact ⟨m, .isReserved index, h⟩
  | size =>
      have hanswer : (r.answer .size).1 = .count m.keys.card := congrArg Answer.count h.size_eq
      rw [hanswer]
      exact ⟨m, .size, h⟩

theorem Represents.answers {pieceCount : Nat} (queries : List Query) {r : Reservations}
    {m : Deadlines} (h : Represents pieceCount r m) :
    ∃ m', m.AnswersAll pieceCount queries (r.answers queries).1 m'
      ∧ Represents pieceCount (r.answers queries).2 m' := by
  induction queries generalizing r m with
  | nil => exact ⟨m, .nil m, h⟩
  | cons q queries ih =>
      obtain ⟨m₁, hanswer, h₁⟩ := h.answer q
      obtain ⟨m₂, hrest, h₂⟩ := ih h₁
      exact ⟨m₂, .cons hanswer hrest, h₂⟩

/-- Whatever is asked of reservations, in any order and at any times, is answered as a finite map
answers it, and after that the set has the keys of that map. -/
theorem answers_eq_deadlines (pieceCount : Nat) (queries : List Query) :
    ∃ m : Deadlines,
      Deadlines.AnswersAll pieceCount ∅ queries ((empty pieceCount).answers queries).1 m
        ∧ (∀ index, ((empty pieceCount).answers queries).2.reserved.contains index
          = decide (index ∈ m))
        ∧ ((empty pieceCount).answers queries).2.size = m.keys.card := by
  obtain ⟨m, hanswers, h⟩ := (represents_empty pieceCount).answers queries
  exact ⟨m, hanswers, h.contains_eq, h.size_eq⟩

end Reservations

end TorrentCore
