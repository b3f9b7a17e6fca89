import TorrentCore.Proofs.Stream.Feed
import TorrentCore.Proofs.Stream.ReadBuffer
import TorrentCore.Stream.FeedReader

/-!
# Reading messages does not depend on how the stream is cut

Calls that read one message each give, one after the other, the results of the whole byte string,
however it comes in. The invariant is a buffer that is large enough and a feed that flows; what the
calls still have to say is then the results of what waits in the buffer followed by what the feed
still delivers. A call takes the first of these results, or is given up in a pause and takes
nothing.

A call that has its frame reads no further: whatever would come next, silence and failing reads
included, the call gives its message and leaves that alone.
-/

namespace TorrentCore

open Message

namespace FeedReader

/-- What one call does, where `s` is what the first part of the feed makes of the stream, and `next`
is behind that part. -/
inductive Call (limit : UInt32) (next : Feed) (s : Bytes) (prompt : Prop) :
    Except Error Message × FeedReader → Prop
  | timedOut (activity : String) (r : FeedReader) (rest : Feed) (hready : r.buffer.Ready limit)
      (hfeed : r.feed = rest ++ next) (hflows : rest.Flows) (hpause : ¬ prompt)
      (hresults : results limit (r.buffer.pending ++ rest.bytes) = results limit s) :
      Call limit next s prompt (.error (.timeout activity), r)
  | message (m : Message) (r : FeedReader) (rest : Feed) (hready : r.buffer.Ready limit)
      (hfeed : r.feed = rest ++ next) (hflows : rest.Flows) (hprompt : prompt → rest.IsPrompt)
      (hresults : results limit s = .ok m :: results limit (r.buffer.pending ++ rest.bytes)) :
      Call limit next s prompt (.ok m, r)
  | failed (e : DecodeError) (r : FeedReader) (rest : Feed) (hready : r.buffer.Ready limit)
      (hfeed : r.feed = rest ++ next) (hflows : rest.Flows) (hprompt : prompt → rest.IsPrompt)
      (hresults : results limit s = [.error (.decode e)]) :
      Call limit next s prompt (.error (.decode e), r)
  /-- The first part ran out before a frame was complete. -/
  | ranOut (out : Except Error Message × FeedReader)
      (hresults : results limit s = [.error .peerDisconnected])
      (hend : next = [] → out.1 = .error .peerDisconnected
        ∧ out.2.buffer.Ready limit ∧ out.2.feed = []) : Call limit next s prompt out

theorem Call.of_results_eq {limit : UInt32} {next : Feed} {s s' : Bytes} {prompt prompt' : Prop}
    {out : Except Error Message × FeedReader} (h : Call limit next s' prompt' out)
    (hresults : results limit s = results limit s') (hprompt : prompt → prompt') :
    Call limit next s prompt out := by
  cases h with
  | timedOut activity r rest hready hfeed hflows hpause hsame =>
      exact .timedOut activity r rest hready hfeed hflows (fun h => hpause (hprompt h))
        (hsame.trans hresults.symm)
  | message m r rest hready hfeed hflows hrest hfirst =>
      exact .message m r rest hready hfeed hflows (fun h => hrest (hprompt h))
        (hresults.trans hfirst)
  | failed e r rest hready hfeed hflows hrest honly =>
      exact .failed e r rest hready hfeed hflows (fun h => hrest (hprompt h)) (hresults.trans honly)
  | ranOut out honly hend => exact .ranOut out (hresults.trans honly) hend

theorem messageLoop_spec {limit : UInt32} (timeout : Nanoseconds) {fuel : Nat} {r : FeedReader}
    {first next : Feed} (hready : r.buffer.Ready limit) (hflows : first.Flows)
    (hfeed : r.feed = first ++ next) (hfuel : Feed.size r.feed + r.feed.length < fuel) :
    Call limit next (r.buffer.pending ++ first.bytes) first.IsPrompt
      (r.messageLoop timeout limit fuel) := by
  induction fuel generalizing r first with
  | zero => omega
  | succ fuel ih =>
      have hsays := ReadBuffer.message_spec hready
      rw [messageLoop]
      generalize r.buffer.message limit = front at hsays ⊢
      cases hsays with
      | item m rest hready' hresults =>
          exact .message m _ first hready' hfeed hflows id (hresults _)
      | failed e b hready' hresults _ =>
          exact .failed e _ first hready' hfeed hflows id (hresults _)
      | more b hready' hroom hopen hresults =>
          have hread := Feed.readBy_append hroom (r.now + timeout) next hflows r.now
          rw [← hfeed] at hread
          simp only [read]
          generalize hout : r.feed.readBy (r.now + timeout) b.room r.now = out at hread ⊢
          cases hread with
          | waited now rest hrest hbytes hpause =>
              exact .timedOut _ _ rest hready' rfl hrest hpause (by rw [hbytes, hresults])
          | data taken now rest hrest htaken htakes hbytes hprompt =>
              have hless := Feed.size_readBy hout htaken
              obtain ⟨byte, taken, rfl⟩ := List.exists_cons_of_ne_nil htaken
              have hcall := ih (r := ⟨b.receive (byte :: taken), rest ++ next, now⟩)
                (hready'.receive htakes) hrest rfl
                (Nat.lt_of_lt_of_le hless (Nat.le_of_lt_succ hfuel))
              refine hcall.of_results_eq ?_ hprompt
              rw [hresults, hbytes, ReadBuffer.receive, List.append_assoc]
          | usedUp deadline now hempty =>
              refine .ranOut _ ?_ fun hnext => ?_
              · rw [hempty, hresults, List.append_nil, hopen]
              · rw [hnext]
                exact ⟨rfl, hready', rfl⟩

theorem message_spec {limit : UInt32} (timeout : Nanoseconds) {r : FeedReader} {first next : Feed}
    (hready : r.buffer.Ready limit) (hflows : first.Flows) (hfeed : r.feed = first ++ next) :
    Call limit next (r.buffer.pending ++ first.bytes) first.IsPrompt (r.message timeout limit) :=
  messageLoop_spec timeout hready hflows hfeed (Nat.lt_succ_self _)

/-- A call ends before its fuel does: more fuel does not change it. -/
theorem messageLoop_eq {limit : UInt32} (timeout : Nanoseconds) {fuel fuel' : Nat} {r : FeedReader}
    (hfuel : Feed.size r.feed + r.feed.length < fuel)
    (hfuel' : Feed.size r.feed + r.feed.length < fuel') :
    r.messageLoop timeout limit fuel = r.messageLoop timeout limit fuel' := by
  induction fuel generalizing fuel' r with
  | zero => omega
  | succ fuel ih =>
      cases fuel' with
      | zero => omega
      | succ fuel' =>
          rw [messageLoop, messageLoop]
          split
          · rfl
          · rfl
          · next b _ =>
            simp only [read]
            rcases hout : r.feed.readBy (r.now + timeout) b.room r.now with ⟨arrival, now, rest⟩
            rcases arrival with _ | ⟨taken⟩ | _ | _
            · rfl
            · cases taken with
              | nil => rfl
              | cons byte taken =>
                  have hless := Feed.size_readBy hout (List.cons_ne_nil _ _)
                  exact ih (Nat.lt_of_lt_of_le hless (Nat.le_of_lt_succ hfuel))
                    (Nat.lt_of_lt_of_le hless (Nat.le_of_lt_succ hfuel'))
            · rfl
            · rfl

/-! ### Calls one after the other -/

def isTimeout : Except Error Message → Bool
  | .error (.timeout _) => true
  | _ => false

/-- What calls with these timeouts give, one after the other, and the reader after them. A call
that timed out is followed by the next one; any other failure is the last result. -/
def calls (limit : UInt32) : List Nanoseconds → FeedReader →
    List (Except Error Message) × FeedReader
  | [], r => ([], r)
  | timeout :: timeouts, r =>
    match r.message timeout limit with
    | (.ok m, r) => (.ok m :: (calls limit timeouts r).1, (calls limit timeouts r).2)
    | (.error (.timeout activity), r) =>
      (.error (.timeout activity) :: (calls limit timeouts r).1, (calls limit timeouts r).2)
    | (.error e, r) => ([.error e], r)

theorem length_calls_le (limit : UInt32) (timeouts : List Nanoseconds) (r : FeedReader) :
    (calls limit timeouts r).1.length ≤ timeouts.length := by
  induction timeouts generalizing r with
  | nil => exact Nat.le_refl _
  | cons timeout timeouts ih =>
      rw [calls]
      split
      · exact Nat.succ_le_succ (ih _)
      · exact Nat.succ_le_succ (ih _)
      · exact Nat.succ_le_succ (Nat.zero_le _)

/-- Only pauses make calls time out, and the calls that do not time out give the results of the
stream, one each and in order. -/
theorem calls_spec {limit : UInt32} {r : FeedReader} (hready : r.buffer.Ready limit)
    (hflows : r.feed.Flows) (timeouts : List Nanoseconds) :
    (calls limit timeouts r).2.buffer.Ready limit ∧ (calls limit timeouts r).2.feed.Flows
      ∧ (r.feed.IsPrompt → (calls limit timeouts r).1.countP isTimeout = 0)
      ∧ (calls limit timeouts r).1.filter (fun out => !isTimeout out)
        = (results limit (r.buffer.pending ++ r.feed.bytes)).take
            (timeouts.length - (calls limit timeouts r).1.countP isTimeout) := by
  induction timeouts generalizing r with
  | nil => exact ⟨hready, hflows, fun _ => rfl, rfl⟩
  | cons timeout timeouts ih =>
      have hcall := message_spec timeout hready hflows (List.append_nil r.feed).symm
      rw [calls]
      generalize r.message timeout limit = out at hcall ⊢
      cases hcall with
      | timedOut activity r' rest hready' hfeed hflows' hpause hresults =>
          rw [List.append_nil] at hfeed
          subst hfeed
          obtain ⟨hready'', hflows'', -, hgiven⟩ := ih hready' hflows'
          refine ⟨hready'', hflows'', fun hprompt => (hpause hprompt).elim, ?_⟩
          rw [List.filter_cons_of_neg (by simp [isTimeout]), hgiven, hresults,
            List.countP_cons_of_pos rfl, List.length_cons, Nat.add_sub_add_right]
      | message m r' rest hready' hfeed hflows' hprompt hresults =>
          rw [List.append_nil] at hfeed
          subst hfeed
          obtain ⟨hready'', hflows'', hwaits, hgiven⟩ := ih hready' hflows'
          have hcount : (calls limit timeouts r').1.countP isTimeout ≤ timeouts.length :=
            Nat.le_trans List.countP_le_length (length_calls_le limit timeouts r')
          refine ⟨hready'', hflows'', fun h => ?_, ?_⟩
          · rw [List.countP_cons_of_neg (by simp [isTimeout])]
            exact hwaits (hprompt h)
          · rw [List.filter_cons_of_pos rfl, hgiven, hresults,
              List.countP_cons_of_neg (by simp [isTimeout]), List.length_cons,
              Nat.succ_sub hcount, List.take_succ_cons]
      | failed e r' rest hready' hfeed hflows' hprompt hresults =>
          rw [List.append_nil] at hfeed
          subst hfeed
          refine ⟨hready', hflows', fun _ => rfl, ?_⟩
          show [_] = List.take (timeouts.length + 1 - 0) _
          rw [hresults, Nat.sub_zero, List.take_succ_cons, List.take_nil]
      | ranOut out hresults hend =>
          obtain ⟨result, r'⟩ := out
          obtain ⟨rfl, hready', hfeed⟩ := hend rfl
          refine ⟨hready', ?_, fun _ => rfl, ?_⟩
          · rw [show r'.feed = [] from hfeed]
            exact fun e he => absurd he List.not_mem_nil
          · show [_] = List.take (timeouts.length + 1 - 0) _
            rw [hresults, Nat.sub_zero, List.take_succ_cons, List.take_nil]

end FeedReader

end TorrentCore
