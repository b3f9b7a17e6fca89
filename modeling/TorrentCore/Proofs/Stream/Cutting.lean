import TorrentCore.Proofs.Stream.Delivery
import TorrentCore.Proofs.Stream.Handshake

/-!
# The cuts of a stream do not show

Put together: a reader over a new buffer gives the results of the byte string that its feed
delivers, whatever the chunks and the pauses are, and so does a reader that took a handshake off
the front first.
-/

namespace TorrentCore

open Message

namespace FeedReader

/-- Calls for messages read `s` off this reader: whatever their timeouts are, and however many of
them are given up in a pause. -/
structure ReadsAs (limit : UInt32) (s : Bytes) (r : FeedReader) : Prop where
  /-- The calls that do not time out give the results of `s`, one each, in order and up to the
  failure. -/
  results_eq : ∀ timeouts, (calls limit timeouts r).1.filter (fun out => !isTimeout out)
    = (results limit s).take (timeouts.length - (calls limit timeouts r).1.countP isTimeout)
  no_timeout : r.feed.IsPrompt → ∀ timeouts, (calls limit timeouts r).1.countP isTimeout = 0
  not_full : ∀ timeouts missing, .error (.readBufferFull missing) ∉ (calls limit timeouts r).1
  /-- After any calls, another one ends by itself: more fuel does not change it. -/
  ends : ∀ timeouts timeout fuel, (calls limit timeouts r).2.fuel ≤ fuel →
    (calls limit timeouts r).2.messageLoop timeout limit fuel
      = (calls limit timeouts r).2.message timeout limit
  /-- After any calls, if some first part of what is still to be read completes the next message,
  nothing behind that part is needed: with anything else there, it is given just as well, and what
  is there is left. -/
  reads_no_further : ∀ timeouts timeout first unread next m more,
    (calls limit timeouts r).2.feed = first ++ unread →
    results limit ((calls limit timeouts r).2.buffer.pending ++ first.bytes) = .ok m :: more →
    let out := message { (calls limit timeouts r).2 with feed := first ++ next } timeout limit
    (out.1 = .ok m ∧ ∃ left, out.2.feed = left ++ next)
      ∨ (¬ first.IsPrompt ∧ ∃ activity, out.1 = .error (.timeout activity))

theorem readBufferFull_not_mem_results (limit : UInt32) (s : Bytes) (missing : Nat) :
    .error (.readBufferFull missing) ∉ results limit s := by
  intro hmem
  rcases List.mem_append.mp hmem with h | h
  · obtain ⟨m, _, hm⟩ := List.mem_map.mp h
    cases hm
  · rw [List.mem_singleton, Except.error.injEq, Transcript.ending] at h
    split at h <;> cases h

theorem message_of_results {limit : UInt32} (timeout : Nanoseconds) {r : FeedReader}
    {first next : Feed} {m : Message} {more : List (Except Error Message)}
    (hready : r.buffer.Ready limit) (hflows : first.Flows) (hfeed : r.feed = first ++ next)
    (hfirst : results limit (r.buffer.pending ++ first.bytes) = .ok m :: more) :
    ((r.message timeout limit).1 = .ok m ∧ ∃ left, (r.message timeout limit).2.feed = left ++ next)
      ∨ (¬ first.IsPrompt ∧ ∃ activity, (r.message timeout limit).1 = .error (.timeout activity)) := by
  have hcall := message_spec timeout hready hflows hfeed
  generalize r.message timeout limit = out at hcall ⊢
  cases hcall with
  | timedOut activity r' rest _ _ _ hpause => exact Or.inr ⟨hpause, activity, rfl⟩
  | message m' r' rest _ hleft _ _ hresults =>
      rw [hfirst, List.cons.injEq, Except.ok.injEq] at hresults
      obtain ⟨rfl, _⟩ := hresults
      exact Or.inl ⟨rfl, rest, hleft⟩
  | failed e r' rest _ _ _ _ hresults =>
      rw [hfirst] at hresults
      cases hresults
  | ranOut out hresults =>
      rw [hfirst] at hresults
      cases hresults

theorem readsAs_of_ready {limit : UInt32} {r : FeedReader} (hready : r.buffer.Ready limit)
    (hflows : r.feed.Flows) : ReadsAs limit (r.buffer.pending ++ r.feed.bytes) r where
  results_eq timeouts := (calls_spec hready hflows timeouts).2.2.2
  no_timeout hprompt timeouts := (calls_spec hready hflows timeouts).2.2.1 hprompt
  not_full := by
    intro timeouts missing hmem
    have hgiven := (calls_spec hready hflows timeouts).2.2.2
    have hleft : .error (.readBufferFull missing)
        ∈ (calls limit timeouts r).1.filter (fun out => !isTimeout out) :=
      List.mem_filter.mpr ⟨hmem, rfl⟩
    rw [hgiven] at hleft
    exact readBufferFull_not_mem_results limit _ missing (List.mem_of_mem_take hleft)
  ends timeouts timeout fuel hfuel := messageLoop_eq timeout hfuel (Nat.lt_succ_self _)
  reads_no_further := by
    intro timeouts timeout first unread next m more hfeed hfirst
    obtain ⟨hready', hflows', _⟩ := calls_spec hready hflows timeouts
    rw [hfeed] at hflows'
    have hflows'' : first.Flows := fun e he => hflows' e (List.mem_append_left _ he)
    exact message_of_results timeout (r := { (calls limit timeouts r).2 with feed := first ++ next })
      hready' hflows'' rfl hfirst

/-- Whatever way a byte string is delivered, reading it gives what it says as a whole, also after a
handshake that came before it. -/
theorem readsAs_of_delivers {maxLength limit : UInt32} (hlimit : limit ≤ maxLength) (s : Bytes)
    (now : Nanoseconds) :
    (∀ feed : Feed, feed.Delivers s → ReadsAs limit s ⟨.forMessages maxLength, feed, now⟩)
      ∧ ∀ (feed : Feed) (h : Handshake) (timeout : Nanoseconds), feed.Delivers (h.encode ++ s) →
        match handshake ⟨.forMessages maxLength, feed, now⟩ timeout with
        | (.ok received, r) =>
          received = h ∧ ReadsAs limit s r ∧ (feed.IsPrompt → r.feed.IsPrompt)
        | (.error e, _) => e = .noResponse ∧ ¬ feed.IsPrompt := by
  refine ⟨?_, ?_⟩
  · rintro feed ⟨hflows, rfl⟩
    exact readsAs_of_ready (r := ⟨.forMessages maxLength, feed, now⟩)
      (ReadBuffer.ready_forMessages hlimit) hflows
  · rintro feed h timeout ⟨hflows, hbytes⟩
    have hopening := handshake_spec timeout (r := ⟨.forMessages maxLength, feed, now⟩)
      (ReadBuffer.fresh_forMessages hlimit) hflows hbytes
    generalize handshake ⟨.forMessages maxLength, feed, now⟩ timeout = out at hopening ⊢
    cases hopening with
    | timedOut r hpause => exact ⟨rfl, hpause⟩
    | opened r hready hflows' hprompt hrest =>
        refine ⟨rfl, ?_, hprompt⟩
        rw [← hrest]
        exact readsAs_of_ready hready hflows'

/-- Two frames of sixty bytes in a buffer of sixty-eight: the second one is cut by a pause, and it
straddles the end of the buffer. -/
theorem readsAs_of_delivers_straddling :
    let piece : Message := .piece 0 0 (List.replicate 47 7)
    let s := piece.encode ++ piece.encode
    let h := Handshake.plain .zero .zero
    let feed : Feed :=
      [.chunk ((h.encode ++ s).take 135), .pause 5, .chunk ((h.encode ++ s).drop 135)]
    (60 : UInt32) ≤ 60 ∧ feed.Delivers (h.encode ++ s)
      ∧ match handshake ⟨.forMessages 60, feed, 0⟩ 10 with
        | (.ok received, r) =>
          received = h ∧ ReadsAs 60 s r ∧ (feed.IsPrompt → r.feed.IsPrompt)
        | (.error e, _) => e = .noResponse ∧ ¬ feed.IsPrompt := by
  intro piece s h feed
  have hdelivers : feed.Delivers (h.encode ++ s) := by
    refine ⟨?_, ?_⟩
    · intro e he
      simp only [feed, List.mem_cons, List.not_mem_nil, or_false] at he
      rcases he with rfl | rfl | rfl <;> trivial
    · show (h.encode ++ s).take 135 ++ ((h.encode ++ s).drop 135 ++ []) = h.encode ++ s
      rw [List.append_nil, List.take_append_drop]
  exact ⟨by decide, hdelivers, (readsAs_of_delivers (by decide) s 0).2 feed h 10 hdelivers⟩

end FeedReader

end TorrentCore
