import TorrentCore.Proofs.Stream.Feed
import TorrentCore.Proofs.Stream.ReadBuffer
import TorrentCore.Proofs.Wire.Handshake
import TorrentCore.Stream.FeedReader

/-!
# Reading the handshake

The handshake is the first thing read from a stream, so it stands at the front of the buffer and
there is always room for the rest of it. What was read along with it is what the messages then
begin with: nothing of that is lost, and nothing is there twice.
-/

namespace TorrentCore

namespace ReadBuffer

structure Fresh (limit : UInt32) (b : ReadBuffer) : Prop extends b.Ready limit where
  start_eq : b.start = 0
  handshake_fits : handshakeLength ≤ b.capacity

theorem fresh_forMessages {limit maxLength : UInt32} (h : limit ≤ maxLength) :
    (forMessages maxLength).Fresh limit :=
  ⟨ready_forMessages h, rfl, Nat.le_max_right _ _⟩

theorem Fresh.receive {limit : UInt32} {b : ReadBuffer} (h : b.Fresh limit) {bytes : Bytes}
    (hroom : bytes.length ≤ b.room) : (b.receive bytes).Fresh limit :=
  ⟨h.toReady.receive hroom, h.start_eq, h.handshake_fits⟩

theorem Fresh.room_pos {limit : UInt32} {b : ReadBuffer} (h : b.Fresh limit)
    (hshort : b.pending.length < handshakeLength) : 0 < b.room := by
  have hfits := h.handshake_fits
  rw [ReadBuffer.room, ReadBuffer.stop, h.start_eq]
  omega

theorem handshake_of_encode {b : ReadBuffer} {h : Handshake} {more : Bytes}
    (hpending : b.pending = h.encode ++ more) :
    b.handshake = .item h (b.consume handshakeLength) := by
  rw [handshake, hpending, Handshake.decode_encode_append]

theorem handshake_of_front {b : ReadBuffer} {h : Handshake} {more : Bytes}
    (hfront : b.pending ++ more = h.encode) (hmore : more ≠ []) : b.handshake = .more b := by
  obtain ⟨e, hdecode, hshort⟩ := Handshake.decode_of_front hfront hmore
  rw [handshake, hdecode]
  cases e with
  | badLength received => exact hshort.elim
  | protocolMismatch => exact hshort.elim
  | empty | shortProtocolName | shortReserved | shortInfoHash | shortPeerId => rfl

end ReadBuffer

namespace FeedReader

/-- How reading a handshake `h` can turn out if `s` comes after it. -/
inductive Opening (limit : UInt32) (h : Handshake) (s : Bytes) (prompt : Prop) :
    Except HandshakeError Handshake × FeedReader → Prop
  | timedOut (r : FeedReader) (hpause : ¬ prompt) : Opening limit h s prompt (.error .noResponse, r)
  | opened (r : FeedReader) (hready : r.buffer.Ready limit) (hflows : r.feed.Flows)
      (hprompt : prompt → r.feed.IsPrompt) (hbytes : r.buffer.pending ++ r.feed.bytes = s) :
      Opening limit h s prompt (.ok h, r)

theorem Opening.of_prompt {limit : UInt32} {h : Handshake} {s : Bytes} {prompt prompt' : Prop}
    {out : Except HandshakeError Handshake × FeedReader} (hout : Opening limit h s prompt' out)
    (hprompt : prompt → prompt') : Opening limit h s prompt out := by
  cases hout with
  | timedOut r hpause => exact .timedOut r fun hp => hpause (hprompt hp)
  | opened r hready hflows hrest hbytes =>
      exact .opened r hready hflows (fun hp => hrest (hprompt hp)) hbytes

/-- What waits at the beginning of a stream either holds the whole handshake or is a first part of
it. -/
theorem front_of_stream {h : Handshake} {pending coming s : Bytes}
    (hbytes : pending ++ coming = h.encode ++ s) :
    (∃ more, pending = h.encode ++ more ∧ more ++ coming = s)
      ∨ ∃ more, more ≠ [] ∧ pending ++ more = h.encode ∧ coming = more ++ s := by
  rcases List.append_eq_append_iff.mp hbytes with ⟨more, hencode, hcoming⟩ | ⟨more, hpending, hs⟩
  · by_cases hmore : more = []
    · subst hmore
      rw [List.append_nil] at hencode
      exact Or.inl ⟨[], by rw [hencode, List.append_nil], hcoming⟩
    · exact Or.inr ⟨more, hmore, hencode.symm, hcoming⟩
  · exact Or.inl ⟨more, hpending, hs.symm⟩

theorem handshakeLoop_spec {limit : UInt32} (deadline : Nanoseconds) {h : Handshake} {s : Bytes}
    {fuel : Nat} {r : FeedReader} (hfresh : r.buffer.Fresh limit) (hflows : r.feed.Flows)
    (hbytes : r.buffer.pending ++ r.feed.bytes = h.encode ++ s)
    (hfuel : Feed.size r.feed + r.feed.length < fuel) :
    Opening limit h s r.feed.IsPrompt (r.handshakeLoop deadline fuel) := by
  induction fuel generalizing r with
  | zero => omega
  | succ fuel ih =>
      rw [handshakeLoop]
      rcases front_of_stream hbytes with ⟨more, hpending, hs⟩ | ⟨more, hmore, hfront, hcoming⟩
      · have hlength := congrArg List.length hpending
        rw [List.length_append, Handshake.length_encode] at hlength
        rw [ReadBuffer.handshake_of_encode hpending]
        refine .opened _ (hfresh.toReady.consume (by omega)) hflows id ?_
        show (r.buffer.consume handshakeLength).pending ++ r.feed.bytes = s
        rw [ReadBuffer.pending_consume, hpending, ← h.length_encode, List.drop_left, hs]
      · have hshort : r.buffer.pending.length < handshakeLength := by
          have hlength := congrArg List.length hfront
          have hpos := List.length_pos_iff.mpr hmore
          rw [List.length_append, Handshake.length_encode] at hlength
          omega
        have hread := Feed.readBy_append (hfresh.room_pos hshort) deadline [] hflows r.now
        rw [ReadBuffer.handshake_of_front hfront hmore]
        rw [List.append_nil] at hread
        simp only [read]
        generalize hout : r.feed.readBy deadline r.buffer.room r.now = out at hread ⊢
        cases hread with
        | waited now rest hrest hsame hpause => exact .timedOut _ hpause
        | data taken now rest hrest htaken htakes hsplit hprompt =>
            have hless := Feed.size_readBy hout htaken
            obtain ⟨byte, taken, rfl⟩ := List.exists_cons_of_ne_nil htaken
            rw [List.append_nil] at hless hout ⊢
            refine (ih (r := ⟨r.buffer.receive (byte :: taken), rest, now⟩)
              (hfresh.receive htakes) hrest ?_ ?_).of_prompt hprompt
            · rw [ReadBuffer.receive, List.append_assoc, ← hsplit]
              exact hbytes
            · exact Nat.lt_of_lt_of_le hless (Nat.le_of_lt_succ hfuel)
        | usedUp deadline' now hempty =>
            rw [hempty] at hcoming
            exact absurd (List.append_eq_nil_iff.mp hcoming.symm).1 hmore

/-- Reading the handshake from the front of a stream gives it and leaves the rest, unless it is
given up in a pause. -/
theorem handshake_spec {limit : UInt32} (timeout : Nanoseconds) {h : Handshake} {s : Bytes}
    {r : FeedReader} (hfresh : r.buffer.Fresh limit) (hflows : r.feed.Flows)
    (hbytes : r.buffer.pending ++ r.feed.bytes = h.encode ++ s) :
    Opening limit h s r.feed.IsPrompt (r.handshake timeout) :=
  handshakeLoop_spec _ hfresh hflows hbytes (Nat.lt_succ_self _)

end FeedReader

end TorrentCore
