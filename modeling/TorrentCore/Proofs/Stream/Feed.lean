import TorrentCore.Stream.Feed

/-!
# What a feed delivers

A feed that neither fails nor falls silent delivers its chunks, in order, and then ends. Pauses
only say when. A read takes bytes off the front of what is left, or is given up in a pause and
takes nothing. What comes after some first part of a feed is not looked at before that part is used
up, so every statement here is about a first part with anything at all behind it.
-/

namespace TorrentCore

namespace FeedEvent

def Flows : FeedEvent → Prop
  | .chunk _ | .pause _ | .pausedUntil _ => True
  | .failure _ | .silence => False

def IsChunk : FeedEvent → Prop
  | .chunk _ => True
  | _ => False

end FeedEvent

namespace Feed

def bytes : Feed → Bytes
  | [] => []
  | .chunk chunk :: rest => chunk ++ bytes rest
  | _ :: rest => bytes rest

/-- No read fails, and none waits for ever. -/
def Flows (f : Feed) : Prop := ∀ e ∈ f, e.Flows

def IsPrompt (f : Feed) : Prop := ∀ e ∈ f, e.IsChunk

/-- The feed delivers these bytes, in some chunks and with some pauses, and then ends. -/
def Delivers (f : Feed) (s : Bytes) : Prop := f.Flows ∧ f.bytes = s

/-- What a read of at most `room` bytes does with a first part `f` of a feed, if `next` is behind
it. -/
inductive Reads (room : Nat) (f next : Feed) : Option Arrival × Nanoseconds × Feed → Prop
  | waited (now : Nanoseconds) (rest : Feed) (hflows : rest.Flows) (hbytes : rest.bytes = f.bytes)
      (hpause : ¬ f.IsPrompt) : Reads room f next (none, now, rest ++ next)
  | data (taken : Bytes) (now : Nanoseconds) (rest : Feed) (hflows : rest.Flows)
      (htaken : taken ≠ []) (hroom : taken.length ≤ room) (hbytes : f.bytes = taken ++ rest.bytes)
      (hprompt : f.IsPrompt → rest.IsPrompt) :
      Reads room f next (some (.data taken), now, rest ++ next)
  | usedUp (deadline now : Nanoseconds) (hbytes : f.bytes = []) :
      Reads room f next (readBy deadline room now next)

theorem Flows.tail {e : FeedEvent} {f : Feed} (h : Flows (e :: f)) : Flows f :=
  fun e' he' => h e' (List.mem_cons_of_mem e he')

theorem Reads.cons {room : Nat} {e : FeedEvent} {f next : Feed}
    {out : Option Arrival × Nanoseconds × Feed} (hbytes : bytes (e :: f) = f.bytes)
    (h : Reads room f next out) : Reads room (e :: f) next out := by
  cases h with
  | waited now rest hflows hsame hpause =>
      exact .waited now rest hflows (hsame.trans hbytes.symm) fun hprompt =>
        hpause fun e' he' => hprompt e' (List.mem_cons_of_mem e he')
  | data taken now rest hflows htaken hroom hfront hprompt =>
      exact .data taken now rest hflows htaken hroom (hbytes.trans hfront) fun hall =>
        hprompt fun e' he' => hall e' (List.mem_cons_of_mem e he')
  | usedUp deadline now hempty => exact .usedUp deadline now (hbytes.trans hempty)

/-! ### Reading from a chunk -/

/-- What is left of a feed after a read of at most `room` bytes from its first chunk. -/
def behind (room : Nat) (chunk : Bytes) (rest : Feed) : Feed :=
  if (chunk.drop room).isEmpty then rest else .chunk (chunk.drop room) :: rest

theorem readBy_chunk {chunk : Bytes} (h : chunk ≠ []) (deadline : Nanoseconds) (room : Nat)
    (now : Nanoseconds) (rest : Feed) :
    readBy deadline room now (.chunk chunk :: rest)
      = (some (.data (chunk.take room)), now, behind room chunk rest) := by
  simp only [readBy]
  rw [List.isEmpty_eq_false_iff.mpr h, if_neg Bool.false_ne_true]
  rfl

theorem behind_append (room : Nat) (chunk : Bytes) (rest next : Feed) :
    behind room chunk (rest ++ next) = behind room chunk rest ++ next := by
  unfold behind
  split <;> rfl

theorem bytes_behind (room : Nat) (chunk : Bytes) (rest : Feed) :
    chunk.take room ++ (behind room chunk rest).bytes = chunk ++ rest.bytes := by
  unfold behind
  split
  · next hdone =>
    rw [List.isEmpty_iff, List.drop_eq_nil_iff] at hdone
    rw [List.take_of_length_le hdone]
  · rw [bytes, ← List.append_assoc, List.take_append_drop]

theorem forall_mem_behind {p : FeedEvent → Prop} {room : Nat} {chunk : Bytes} {rest : Feed}
    (hchunk : ∀ left, p (.chunk left)) (h : ∀ e ∈ rest, p e) :
    ∀ e ∈ behind room chunk rest, p e := by
  unfold behind
  split
  · exact h
  · intro e he
    rcases List.mem_cons.mp he with rfl | he
    · exact hchunk _
    · exact h e he

theorem size_behind {room : Nat} {chunk : Bytes} {rest : Feed} (h : chunk.take room ≠ []) :
    size (behind room chunk rest) + (behind room chunk rest).length
      < size (.chunk chunk :: rest) + (rest.length + 1) := by
  have htaken := List.length_pos_iff.mpr h
  rw [List.length_take] at htaken
  unfold behind
  split
  · rw [size]
    omega
  · rw [size, size, List.length_drop, List.length_cons]
    omega

/-! ### Reading from a feed -/

theorem readBy_append {room : Nat} (hroom : 0 < room) (deadline : Nanoseconds) (next : Feed)
    {f : Feed} (hflows : f.Flows) (now : Nanoseconds) :
    Reads room f next (readBy deadline room now (f ++ next)) := by
  induction f generalizing now with
  | nil => exact .usedUp deadline now rfl
  | cons e f ih =>
      have hrest := hflows.tail
      cases e with
      | chunk chunk =>
          by_cases hempty : chunk = []
          · subst hempty
            exact (ih hrest now).cons rfl
          · have htake : chunk.take room ≠ [] := fun h =>
              (List.take_eq_nil_iff.mp h).elim (Nat.ne_of_gt hroom) hempty
            rw [List.cons_append, readBy_chunk hempty, behind_append]
            refine .data _ _ _ (forall_mem_behind (fun _ => trivial) hrest) htake
              (List.length_take_le _ _) (bytes_behind room chunk f).symm fun hprompt => ?_
            exact forall_mem_behind (fun _ => trivial) fun e' he' =>
              hprompt e' (List.mem_cons_of_mem _ he')
      | pause length =>
          rw [List.cons_append, readBy]
          split
          · exact (ih hrest _).cons rfl
          · refine .waited _ (.pausedUntil (now + length) :: f) ?_ rfl fun hprompt =>
              hprompt _ List.mem_cons_self
            intro e' he'
            rcases List.mem_cons.mp he' with rfl | he'
            · trivial
            · exact hrest e' he'
      | pausedUntil time =>
          rw [List.cons_append, readBy]
          split
          · exact (ih hrest _).cons rfl
          · exact .waited _ (.pausedUntil time :: f) hflows rfl fun hprompt =>
              hprompt _ List.mem_cons_self
      | failure cause => exact (hflows _ List.mem_cons_self).elim
      | silence => exact (hflows _ List.mem_cons_self).elim

theorem size_readBy {deadline : Nanoseconds} {room : Nat} {now now' : Nanoseconds} {f f' : Feed}
    {taken : Bytes} (h : readBy deadline room now f = (some (.data taken), now', f'))
    (htaken : taken ≠ []) : size f' + f'.length < size f + f.length := by
  induction f generalizing now with
  | nil => cases h
  | cons e f ih =>
      cases e with
      | chunk chunk =>
          by_cases hempty : chunk = []
          · subst hempty
            have hless := ih h
            simp only [size, List.length_nil, List.length_cons]
            omega
          · rw [readBy_chunk hempty] at h
            cases h
            exact size_behind htaken
      | pause length | pausedUntil time =>
          rw [readBy] at h
          split at h
          · have hless := ih h
            simp only [size, List.length_cons]
            omega
          · cases h
      | failure cause => cases h
      | silence => cases h

end Feed

end TorrentCore
