import TorrentCore.Proofs.Stream.Handshake
import TorrentCore.Proofs.Wire.Fault

/-!
# The answer to a stream

Reading a handshake looks at the bytes again whenever more of them have come, and may give up before
all of them are there. What it gives up on is wrong for every stream with that beginning, so the
answer is the same for all ways in which a stream can be cut into reads, provided that the stream
ends before the wait does. The loop keeps what waits in the buffer and what the feed still gives
together equal to the whole stream.
-/

namespace TorrentCore

namespace Feed

/-- When a feed has ended for a reader that is always ready to read. -/
def endsAt : Nanoseconds → Feed → Nanoseconds
  | now, [] => now
  | now, .pause length :: rest => endsAt (max now (now + length).ceilMilliseconds) rest
  | now, .pausedUntil time :: rest => endsAt (max now time.ceilMilliseconds) rest
  | now, _ :: rest => endsAt now rest

theorem le_endsAt (now : Nanoseconds) (f : Feed) : now ≤ endsAt now f := by
  induction f generalizing now with
  | nil => exact Nat.le_refl _
  | cons e f ih =>
      cases e with
      | pause length => exact Nat.le_trans (Nat.le_max_left _ _) (ih _)
      | pausedUntil time => exact Nat.le_trans (Nat.le_max_left _ _) (ih _)
      | chunk chunk | failure cause | silence => exact ih now

variable {deadline now now' : Nanoseconds} {room : Nat} {f f' : Feed}

theorem le_last_of_endsAt {time : Nanoseconds}
    (htime : endsAt (max now time.ceilMilliseconds) f ≤ deadline.ceilMilliseconds) :
    time.ceilMilliseconds ≤ max now deadline.ceilMilliseconds :=
  calc time.ceilMilliseconds
    _ ≤ max now time.ceilMilliseconds := Nat.le_max_right _ _
    _ ≤ endsAt (max now time.ceilMilliseconds) f := le_endsAt _ f
    _ ≤ deadline.ceilMilliseconds := htime
    _ ≤ max now deadline.ceilMilliseconds := Nat.le_max_right _ _

theorem readBy_ne_none (hflows : f.Flows) (htime : endsAt now f ≤ deadline.ceilMilliseconds) :
    (readBy deadline room now f).1 ≠ none := by
  induction f generalizing now with
  | nil => exact Option.some_ne_none _
  | cons e f ih =>
      cases e with
      | chunk chunk =>
          by_cases hempty : chunk = []
          · subst hempty
            exact ih hflows.tail htime
          · rw [readBy_chunk hempty]
            exact Option.some_ne_none _
      | pause length | pausedUntil time =>
          rw [readBy]
          simp only [if_pos (le_last_of_endsAt htime)]
          exact ih hflows.tail htime
      | failure cause => exact Option.some_ne_none _
      | silence => exact (hflows _ List.mem_cons_self).elim

theorem endsAt_readBy {taken : Bytes} (htime : endsAt now f ≤ deadline.ceilMilliseconds)
    (h : readBy deadline room now f = (some (.data taken), now', f')) :
    endsAt now' f' = endsAt now f := by
  induction f generalizing now with
  | nil => cases h
  | cons e f ih =>
      cases e with
      | chunk chunk =>
          by_cases hempty : chunk = []
          · subst hempty
            exact ih htime h
          · rw [readBy_chunk hempty] at h
            cases h
            unfold behind
            split <;> rfl
      | pause length | pausedUntil time =>
          rw [readBy] at h
          simp only [if_pos (le_last_of_endsAt htime)] at h
          exact ih htime h
      | failure cause | silence => cases h

end Feed

namespace ReadBuffer

open Handshake

/-- What the front of a buffer says of the handshake, for whatever is read after the bytes that
wait. -/
inductive Greets (b : ReadBuffer) : Front Handshake HandshakeError → Prop
  | item (h : Handshake) (hencode : h.encode <+: b.pending) :
      Greets b (.item h (b.consume handshakeLength))
  | failed (e : HandshakeError) (hfault : ∀ more, fault (b.pending ++ more) = e)
      (hnone : ∀ h : Handshake, ∀ more, ¬ h.encode <+: b.pending ++ more) : Greets b (.failed e b)
  | more (hshort : b.pending.length < handshakeLength) (hfault : fault b.pending = b.truncated)
      (hnone : ∀ h : Handshake, ¬ h.encode <+: b.pending) : Greets b (.more b)

theorem greets_handshake (b : ReadBuffer) : b.Greets b.handshake := by
  cases hdecode : decode b.pending with
  | ok h =>
      have hencode := decode_eq_ok_iff.mp hdecode
      rw [handshake, hdecode]
      exact .item h hencode
  | error e =>
      have hfails := fails_of_decode hdecode
      have hnone : ∀ h : Handshake, ¬ h.encode <+: b.pending := fun h hencode => by
        rw [decode_eq_ok_iff.mpr hencode] at hdecode
        cases hdecode
      have htruncated : b.truncated = .ofTruncated e := by
        rw [truncated, hdecode]
      rw [handshake, hdecode]
      cases e with
      | badLength length =>
          exact .failed _ (fault_append_of_badLength hfails)
            fun h more hencode => isShort_of_prefix hfails hencode
      | protocolMismatch =>
          exact .failed _ (fault_append_of_mismatch hfails)
            fun h more hencode => isShort_of_prefix hfails hencode
      | empty | shortProtocolName | shortReserved | shortInfoHash | shortPeerId =>
          exact .more (hfails.length_lt trivial)
            ((hfails.fault_eq_of_isShort trivial).trans htruncated.symm) hnone

end ReadBuffer

namespace FeedReader

open Handshake

/-- The answer to a stream of these bytes. -/
inductive Answers (bytes : Bytes) : Except HandshakeError Handshake × FeedReader → Prop
  | opened (h : Handshake) (r : FeedReader)
      (hbytes : bytes = h.encode ++ (r.buffer.pending ++ r.feed.bytes)) : Answers bytes (.ok h, r)
  | failed (r : FeedReader) (hnone : ∀ h : Handshake, ¬ h.encode <+: bytes) :
      Answers bytes (.error (fault bytes), r)

theorem answers_handshakeLoop {limit : UInt32} {deadline : Nanoseconds} {bytes : Bytes} {fuel : Nat}
    {r : FeedReader} (hfresh : r.buffer.Fresh limit) (hflows : r.feed.Flows)
    (htime : r.feed.endsAt r.now ≤ deadline.ceilMilliseconds)
    (hbytes : r.buffer.pending ++ r.feed.bytes = bytes)
    (hfuel : Feed.size r.feed + r.feed.length < fuel) :
    Answers bytes (r.handshakeLoop deadline fuel) := by
  induction fuel generalizing r with
  | zero => omega
  | succ fuel ih =>
      have hgreets := r.buffer.greets_handshake
      rw [handshakeLoop]
      generalize r.buffer.handshake = front at hgreets ⊢
      cases hgreets with
      | item h hencode =>
          obtain ⟨more, hmore⟩ := hencode
          refine .opened h _ ?_
          show bytes = h.encode ++ ((r.buffer.consume handshakeLength).pending ++ r.feed.bytes)
          rw [ReadBuffer.pending_consume, ← hbytes, ← hmore, ← h.length_encode, List.drop_left,
            List.append_assoc]
      | failed e hfault hnone =>
          have he := hfault r.feed.bytes
          rw [hbytes] at he
          subst he
          exact .failed _ fun h => hbytes ▸ hnone h r.feed.bytes
      | more hshort hfault hnone =>
          have hread := Feed.readBy_append (hfresh.room_pos hshort) deadline [] hflows r.now
          have hgiven : (r.feed.readBy deadline r.buffer.room r.now).1 ≠ none :=
            Feed.readBy_ne_none hflows htime
          rw [List.append_nil] at hread
          simp only [read]
          generalize hout : r.feed.readBy deadline r.buffer.room r.now = out at hread hgiven ⊢
          cases hread with
          | waited now rest _ _ _ => exact absurd rfl hgiven
          | data taken now rest hrest htaken htakes hsplit _ =>
              have hless := Feed.size_readBy hout htaken
              have hends := Feed.endsAt_readBy htime hout
              obtain ⟨byte, taken, rfl⟩ := List.exists_cons_of_ne_nil htaken
              rw [List.append_nil] at hless hends ⊢
              refine ih (r := ⟨r.buffer.receive (byte :: taken), rest, now⟩)
                (hfresh.receive htakes) hrest (Nat.le_trans (Nat.le_of_eq hends) htime) ?_
                (Nat.lt_of_lt_of_le hless (Nat.le_of_lt_succ hfuel))
              rw [ReadBuffer.receive, List.append_assoc, ← hsplit]
              exact hbytes
          | usedUp deadline' now hempty =>
              rw [hempty, List.append_nil] at hbytes
              rw [hbytes] at hfault hnone
              have hanswer := Answers.failed (⟨r.buffer, [], now⟩ : FeedReader) hnone
              rw [hfault] at hanswer
              exact hanswer

/-- A stream that ends before the wait for the handshake does is answered by its bytes alone, in
whatever chunks and with whatever pauses they come. The answer is a handshake exactly if they begin
with one, and then the bytes that were read behind it wait in the buffer; otherwise it is their
fault. Reading a handshake undoes writing it, whatever follows, and what is read as a handshake is
how that is written. -/
theorem handshake_answers {limit : UInt32} {timeout : Nanoseconds} {r : FeedReader}
    (hbuffer : r.buffer = .forMessages limit) (hflows : r.feed.Flows)
    (htime : r.feed.endsAt r.now ≤ (r.now + timeout).ceilMilliseconds) :
    (∀ h, (r.handshake timeout).1 = .ok h ↔ handshakeLength ≤ r.feed.bytes.length
        ∧ r.feed.bytes.take handshakeLength = h.encode)
      ∧ (∀ h r', r.handshake timeout = (.ok h, r') →
        r.feed.bytes = h.encode ++ (r'.buffer.pending ++ r'.feed.bytes))
      ∧ (∀ e, (r.handshake timeout).1 = .error e → e = fault r.feed.bytes)
      ∧ (∀ (h : Handshake) (more : Bytes), decode (h.encode ++ more) = .ok h)
      ∧ ∀ (h : Handshake) (bytes : Bytes), decode bytes = .ok h →
        bytes.take handshakeLength = h.encode := by
  have hfresh : r.buffer.Fresh limit := hbuffer ▸ ReadBuffer.fresh_forMessages (UInt32.le_refl _)
  have hpending : r.buffer.pending ++ r.feed.bytes = r.feed.bytes := by
    rw [hbuffer]
    rfl
  have hanswers : Answers r.feed.bytes (r.handshake timeout) :=
    answers_handshakeLoop hfresh hflows htime hpending (Nat.lt_succ_self _)
  generalize r.handshake timeout = out at hanswers ⊢
  refine ⟨fun h => ?_, fun h r' hout => ?_, fun e hout => ?_, decode_encode_append,
    fun h bytes hdecode => (encode_prefix_iff.mp (decode_eq_ok_iff.mp hdecode)).2⟩
  · rw [← encode_prefix_iff]
    cases hanswers with
    | opened h' r' hbytes =>
        rw [Except.ok.injEq]
        constructor
        · rintro rfl
          exact ⟨_, hbytes.symm⟩
        · intro hencode
          have hread := decode_eq_ok_iff.mpr hencode
          rw [hbytes, decode_encode_append, Except.ok.injEq] at hread
          exact hread
    | failed r' hnone => exact ⟨fun h => (nomatch h), fun hencode => (hnone h hencode).elim⟩
  · subst hout
    cases hanswers with
    | opened _ _ hbytes => exact hbytes
  · cases hanswers with
    | opened h r' hbytes => cases hout
    | failed r' hnone =>
        cases hout
        rfl

/-- A stream that is cut inside the name and inside the info hash, with a pause, and goes on behind
the handshake. -/
def cutGreeting : Feed :=
  let bytes := (Handshake.plain .zero .zero).encode
  [.chunk (bytes.take 5), .pause 2000000, .chunk (bytes.slice 5 30),
    .chunk (bytes.drop 35 ++ [1, 2]), .chunk [3]]

/-- A stream that goes wrong in the name, after its first bytes were right. -/
def wrongGreeting : Feed := [.chunk [19, 66], .pause 1000000, .chunk [105, 84], .chunk [84]]

theorem handshake_answers_cut : cutGreeting.endsAt 0 ≤ Nanoseconds.ceilMilliseconds (0 + 2000000)
    ∧ (handshake ⟨.forMessages 128, cutGreeting, 0⟩ 2000000).1 = .ok (.plain .zero .zero)
    ∧ (handshake ⟨.forMessages 128, cutGreeting, 0⟩ 2000000).2.buffer.pending = [1, 2]
    ∧ (handshake ⟨.forMessages 128, wrongGreeting, 0⟩ 2000000).1 = .error .protocolMismatch := by
  have hflows : cutGreeting.Flows := by simp [Feed.Flows, cutGreeting, FeedEvent.Flows]
  have hflows' : wrongGreeting.Flows := by simp [Feed.Flows, wrongGreeting, FeedEvent.Flows]
  have htime : cutGreeting.endsAt 0 ≤ Nanoseconds.ceilMilliseconds (0 + 2000000) := by
    decide +kernel
  have htime' : wrongGreeting.endsAt 0 ≤ Nanoseconds.ceilMilliseconds (0 + 2000000) := by
    decide +kernel
  obtain ⟨hopened, hwaiting, -⟩ :=
    handshake_answers (r := ⟨.forMessages 128, cutGreeting, 0⟩) rfl hflows htime
  obtain ⟨hopened', -, hfailed', -⟩ :=
    handshake_answers (r := ⟨.forMessages 128, wrongGreeting, 0⟩) rfl hflows' htime'
  have hok := (hopened (.plain .zero .zero)).mpr (by decide +kernel)
  have hrest : (handshake ⟨.forMessages 128, cutGreeting, 0⟩ 2000000).2.feed.bytes = [3] := by
    decide +kernel
  have hsplit : cutGreeting.bytes = (Handshake.plain .zero .zero).encode ++ ([1, 2] ++ [3]) := by
    decide +kernel
  have hfault : fault wrongGreeting.bytes = .protocolMismatch := by decide +kernel
  have hwait := hwaiting _ _ (Prod.ext hok rfl)
  rw [hrest, hsplit] at hwait
  refine ⟨htime, hok, (List.append_cancel_right (List.append_cancel_left hwait)).symm, ?_⟩
  cases hout : (handshake ⟨.forMessages 128, wrongGreeting, 0⟩ 2000000).1 with
  | ok h => exact absurd ((hopened' h).mp hout).1 (by decide)
  | error e =>
      rw [hfailed' e hout, hfault]

end FeedReader

end TorrentCore
