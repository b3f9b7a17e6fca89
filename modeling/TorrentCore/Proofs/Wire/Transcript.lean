import TorrentCore.Error
import TorrentCore.Proofs.Wire.Frame
import TorrentCore.Wire.Transcript

/-!
# What a transcript says

A transcript lists frames. Whoever reads the messages of a byte string one after the other sees
less of it: the messages, and in the end one failure, which is the complaint about a frame, or the
end of the bytes. These are the results of a transcript. They can be read off the front of the
bytes, frame by frame, which is what the rest rests on: one equation for each way `decode` can
turn out.
-/

namespace TorrentCore

open Message

namespace Transcript

def messages (t : Transcript) : List Message := t.entries.filterMap fun e => e.outcome.toOption

def ending (t : Transcript) : Error :=
  match t.entries.getLast? with
  | some ⟨.error (.wrongLength received expected kind), _⟩ =>
    .decode (.wrongLength received expected kind)
  | some ⟨.error (.tooLong received limit), _⟩ => .decode (.tooLong received limit)
  | _ => .peerDisconnected

def results (t : Transcript) :
    List (Except Error Message) := t.messages.map .ok ++ [.error t.ending]

/-! ### One entry after the other -/

theorem read_eq_read {limit : UInt32} {fuel fuel' : Nat} {bytes : Bytes}
    (h : bytes.length < fuel) (h' : bytes.length < fuel') :
    read limit fuel bytes = read limit fuel' bytes := by
  induction fuel generalizing fuel' bytes with
  | zero => omega
  | succ fuel ih =>
      cases fuel' with
      | zero => omega
      | succ fuel' =>
          simp only [read]
          split
          · rfl
          · next hgoesOn =>
            rw [Bool.or_eq_true, not_or] at hgoesOn
            have htaken : 0 < (TranscriptEntry.first limit bytes).taken.length := by
              rw [List.length_pos_iff]
              intro he
              exact hgoesOn.1 (by rw [TranscriptEntry.isFinal, he, List.isEmpty_nil])
            have hrest : 0
                < (bytes.drop (TranscriptEntry.first limit bytes).taken.length).length := by
              rw [List.length_pos_iff]
              intro he
              exact hgoesOn.2 (by rw [he, List.isEmpty_nil])
            rw [List.length_drop] at hrest
            rw [@ih fuel']
            · rw [List.length_drop]
              omega
            · rw [List.length_drop]
              omega

theorem read_eq_ofBytes {limit : UInt32} {fuel : Nat} {bytes : Bytes} (h : bytes.length < fuel) :
    read limit fuel bytes = ofBytes bytes limit :=
  read_eq_read h (Nat.lt_succ_self _)

theorem entries_ne_nil (bytes : Bytes) (limit : UInt32) : (ofBytes bytes limit).entries ≠ [] := by
  rw [ofBytes, read]
  split <;> exact List.cons_ne_nil _ _

theorem entries_of_taken {bytes : Bytes} {limit : UInt32} {size : Nat}
    (htaken : (TranscriptEntry.first limit bytes).taken = bytes.take size) (hpos : 0 < size)
    (hsize : size ≤ bytes.length) (hrest : bytes.drop size ≠ []) :
    (ofBytes bytes limit).entries
      = TranscriptEntry.first limit bytes :: (ofBytes (bytes.drop size) limit).entries := by
  have hlength : (bytes.take size).length = size := by
    rw [List.length_take]
    omega
  have hgoesOn : ((TranscriptEntry.first limit bytes).isFinal
      || (bytes.drop size).isEmpty) = false := by
    rw [TranscriptEntry.isFinal, htaken, Bool.or_eq_false_iff]
    refine ⟨?_, by simpa using hrest⟩
    rw [List.isEmpty_eq_false_iff, ← List.length_pos_iff, hlength]
    exact hpos
  have hdrop : (bytes.drop size).length < bytes.length := by
    rw [List.length_drop]
    omega
  rw [ofBytes, read, htaken, hlength, hgoesOn, if_neg Bool.false_ne_true, read_eq_ofBytes hdrop]

theorem entries_of_last {bytes : Bytes} {limit : UInt32}
    (h : (TranscriptEntry.first limit bytes).taken = []
      ∨ bytes.drop (TranscriptEntry.first limit bytes).taken.length = []) :
    (ofBytes bytes limit).entries = [TranscriptEntry.first limit bytes] := by
  have hstops : ((TranscriptEntry.first limit bytes).isFinal
      || (bytes.drop (TranscriptEntry.first limit bytes).taken.length).isEmpty) = true := by
    rw [Bool.or_eq_true]
    rcases h with h | h
    · exact Or.inl (by rw [TranscriptEntry.isFinal, h, List.isEmpty_nil])
    · exact Or.inr (by rw [h, List.isEmpty_nil])
  rw [ofBytes, read, hstops, if_pos rfl]

end Transcript

/-! ### The results of a byte string -/

def Message.results (limit : UInt32) (bytes : Bytes) : List (Except Error Message) :=
  (Transcript.ofBytes bytes limit).results

namespace Message

open Transcript

@[simp] theorem results_nil (limit : UInt32) : results limit [] = [.error .peerDisconnected] := rfl

theorem results_of_taken {bytes : Bytes} {limit : UInt32} {size : Nat}
    (htaken : (TranscriptEntry.first limit bytes).taken = bytes.take size) (hpos : 0 < size)
    (hsize : size ≤ bytes.length)
    (hlast : Transcript.ending ⟨[TranscriptEntry.first limit bytes], []⟩ = .peerDisconnected) :
    results limit bytes
      = (TranscriptEntry.first limit bytes).outcome.toOption.toList.map .ok
        ++ results limit (bytes.drop size) := by
  by_cases hrest : bytes.drop size = []
  · have hlength : (bytes.take size).length = size := by
      rw [List.length_take]
      omega
    have hentries : (ofBytes bytes limit).entries = _ :=
      entries_of_last (Or.inr (by rw [htaken, hlength, hrest]))
    rw [ending] at hlast
    rw [hrest, results_nil, results, Transcript.results, ending, hentries, hlast,
      messages, hentries]
    rfl
  · have hentries := entries_of_taken htaken hpos hsize hrest
    have hending : (ofBytes bytes limit).ending = (ofBytes (bytes.drop size) limit).ending := by
      rw [ending, ending, hentries, List.getLast?_cons_of_ne_nil (entries_ne_nil _ limit)]
    rw [results, results, Transcript.results, Transcript.results, hending, messages, messages,
      hentries]
    cases houtcome : (TranscriptEntry.first limit bytes).outcome.toOption <;> simp [houtcome]

theorem results_of_ok {bytes : Bytes} {limit : UInt32} {m : Message} {size : Nat}
    (h : decode bytes limit = .ok (m, size)) :
    results limit bytes = .ok m :: results limit (bytes.drop size) := by
  have hframe := frameLength_of_ok h
  have hfirst : TranscriptEntry.first limit bytes = ⟨.ok m, bytes.take size⟩ := by
    rw [TranscriptEntry.first, h]
  have hpos : 0 < size := Nat.lt_of_lt_of_le (by decide) (four_le_of_frameLength hframe)
  rw [results_of_taken (by rw [hfirst]) hpos (le_length_of_frameLength hframe)
    (by rw [hfirst]; rfl), hfirst]
  rfl

theorem results_of_unsupported {bytes : Bytes} {limit : UInt32} {kind : UInt8} {size : Nat}
    (h : decode bytes limit = .error (.unsupported kind size)) :
    results limit bytes = results limit (bytes.drop size) := by
  have hframe := frameLength_of_unsupported h
  have hfirst : TranscriptEntry.first limit bytes
      = ⟨.error (.unsupported kind size), bytes.take size⟩ := by
    rw [TranscriptEntry.first, h]
  have hpos : 0 < size := Nat.lt_of_lt_of_le (by decide) (four_le_of_frameLength hframe)
  rw [results_of_taken (by rw [hfirst]) hpos (le_length_of_frameLength hframe)
    (by rw [hfirst]; rfl), hfirst]
  rfl

theorem results_of_final {bytes : Bytes} {limit : UInt32} {e : DecodeError}
    (h : TranscriptEntry.first limit bytes = ⟨.error e, []⟩) :
    results limit bytes = [.error (Transcript.ending ⟨[⟨.error e, []⟩], []⟩)] := by
  have hentries : (ofBytes bytes limit).entries = _ := entries_of_last (Or.inl (by rw [h]))
  rw [results, Transcript.results, ending, messages, hentries, h]
  rfl

theorem results_of_notEnough {bytes : Bytes} {limit : UInt32} {missing : Nat} {part : String}
    (h : decode bytes limit = .error (.notEnough missing part)) :
    results limit bytes = [.error .peerDisconnected] :=
  results_of_final (by rw [TranscriptEntry.first, h])

theorem results_of_error {bytes : Bytes} {limit : UInt32} {e : DecodeError}
    (h : decode bytes limit = .error e) (hmore : ∀ missing part, e ≠ .notEnough missing part)
    (hkind : ∀ kind size, e ≠ .unsupported kind size) :
    results limit bytes = [.error (.decode e)] := by
  cases e with
  | notEnough missing part => exact absurd rfl (hmore missing part)
  | unsupported kind size => exact absurd rfl (hkind kind size)
  | wrongLength received expected kind => exact results_of_final (by rw [TranscriptEntry.first, h])
  | tooLong received limit' => exact results_of_final (by rw [TranscriptEntry.first, h])

end Message

end TorrentCore
