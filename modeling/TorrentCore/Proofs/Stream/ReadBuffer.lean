import TorrentCore.Proofs.Wire.Transcript
import TorrentCore.Stream.ReadBuffer

/-!
# What a read buffer says of its bytes

A buffer that is large enough for the frames it may meet is never found to be full: what is missing
of a frame fits behind what is there, if need be after moving that to the front. `message_spec` is
all that is used of the front of such a buffer. Whatever is read after the bytes that wait, looking
at the front either takes the first result of all these bytes, or takes nothing that shows in the
results.
-/

namespace TorrentCore

open Message

namespace ReadBuffer

/-- Every frame within the limit fits into the buffer, and what waits lies inside it. -/
structure Ready (limit : UInt32) (b : ReadBuffer) : Prop where
  frame_fits : limit.toNat + lengthWordSize ≤ b.capacity
  stop_le : b.stop ≤ b.capacity

theorem ready_forMessages {limit maxLength : UInt32} (h : limit ≤ maxLength) :
    (forMessages maxLength).Ready limit := by
  have hle := UInt32.le_iff_toNat_le.mp h
  refine ⟨?_, Nat.zero_le _⟩
  simp only [forMessages]
  omega

@[simp] theorem pending_consume (b : ReadBuffer) (count : Nat) :
    (b.consume count).pending = b.pending.drop count := by
  unfold consume
  split
  · next h => exact h.symm
  · rfl

theorem Ready.consume {limit : UInt32} {b : ReadBuffer} (h : b.Ready limit) {count : Nat}
    (hcount : count ≤ b.pending.length) : (b.consume count).Ready limit := by
  have hstop := h.stop_le
  unfold ReadBuffer.stop at hstop
  unfold ReadBuffer.consume
  split
  · exact ⟨h.frame_fits, Nat.zero_le _⟩
  · refine ⟨h.frame_fits, ?_⟩
    simp only [ReadBuffer.stop, List.length_drop]
    omega

theorem Ready.receive {limit : UInt32} {b : ReadBuffer} (h : b.Ready limit) {bytes : Bytes}
    (hroom : bytes.length ≤ b.room) : (b.receive bytes).Ready limit := by
  have hstop := h.stop_le
  refine ⟨h.frame_fits, ?_⟩
  unfold ReadBuffer.room ReadBuffer.stop at hroom
  simp only [ReadBuffer.stop, ReadBuffer.receive, List.length_append] at hstop ⊢
  omega

@[simp] theorem pending_makeRoom (b : ReadBuffer) (count : Nat) :
    (b.makeRoom count).pending = b.pending := by
  unfold makeRoom
  split <;> rfl

theorem Ready.makeRoom {limit : UInt32} {b : ReadBuffer} (h : b.Ready limit) {missing : Nat}
    (hfits : b.pending.length + missing ≤ limit.toNat + lengthWordSize) :
    (b.makeRoom missing).Ready limit ∧ (b.makeRoom missing).hasRoom missing = true := by
  have hframe := h.frame_fits
  unfold ReadBuffer.makeRoom
  split
  · next hroom => exact ⟨h, hroom⟩
  · refine ⟨⟨hframe, ?_⟩, ?_⟩
    · simp only [ReadBuffer.stop]
      omega
    · apply decide_eq_true
      simp only [ReadBuffer.stop]
      omega

/-- What the front of a buffer says, for whatever is read after the bytes that wait. -/
inductive Says (limit : UInt32) (b : ReadBuffer) : Front Message Error → Prop
  | item (m : Message) (rest : ReadBuffer) (hready : rest.Ready limit)
      (hresults : ∀ tail, results limit (b.pending ++ tail)
        = .ok m :: results limit (rest.pending ++ tail)) : Says limit b (.item m rest)
  | more (b' : ReadBuffer) (hready : b'.Ready limit) (hroom : 0 < b'.room)
      (hopen : results limit b'.pending = [.error .peerDisconnected])
      (hresults : ∀ tail, results limit (b.pending ++ tail) = results limit (b'.pending ++ tail)) :
      Says limit b (.more b')
  | failed (e : DecodeError) (b' : ReadBuffer) (hready : b'.Ready limit)
      (hresults : ∀ tail, results limit (b.pending ++ tail) = [.error (.decode e)])
      (hsame : ∀ tail, results limit (b'.pending ++ tail) = [.error (.decode e)]) :
      Says limit b (.failed (.decode e) b')

theorem frontMessage_of_ok {limit : UInt32} {b : ReadBuffer} {m : Message} {size : Nat}
    (h : decode b.pending limit = .ok (m, size)) (fuel : Nat) :
    b.frontMessage limit fuel = .item m (b.consume size) := by
  unfold frontMessage
  rw [h]

theorem frontMessage_of_notEnough {limit : UInt32} {b : ReadBuffer} {missing : Nat} {part : String}
    (h : decode b.pending limit = .error (.notEnough missing part)) (fuel : Nat) :
    b.frontMessage limit fuel
      = if (b.makeRoom missing).hasRoom missing then .more (b.makeRoom missing)
        else .failed (.readBufferFull missing) (b.makeRoom missing) := by
  unfold frontMessage
  rw [h]

theorem frontMessage_of_error {limit : UInt32} {b : ReadBuffer} {e : DecodeError}
    (h : decode b.pending limit = .error e) (hmore : ∀ missing part, e ≠ .notEnough missing part)
    (hkind : ∀ kind size, e ≠ .unsupported kind size) (fuel : Nat) :
    b.frontMessage limit fuel = .failed (.decode e) b := by
  cases e with
  | notEnough missing part => exact absurd rfl (hmore missing part)
  | unsupported kind size => exact absurd rfl (hkind kind size)
  | wrongLength received expected kind | tooLong received limit' =>
      unfold frontMessage
      rw [h]

theorem says_of_spoken {limit : UInt32} {b : ReadBuffer} (hready : b.Ready limit)
    (hkind : ∀ kind size, decode b.pending limit ≠ .error (.unsupported kind size)) (fuel : Nat) :
    Says limit b (b.frontMessage limit fuel) := by
  cases hdecode : decode b.pending limit with
  | ok front =>
      obtain ⟨m, size⟩ := front
      have hsize := le_length_of_frameLength (frameLength_of_ok hdecode)
      rw [frontMessage_of_ok hdecode]
      refine .item m _ (hready.consume hsize) fun tail => ?_
      rw [results_of_ok (decode_append_of_ok hdecode tail), pending_consume,
        List.drop_append_of_le_length hsize]
  | error e =>
      by_cases hmore : ∃ missing part, e = .notEnough missing part
      · obtain ⟨missing, part, rfl⟩ := hmore
        rcases frameLength_eq_error (frameLength_of_notEnough hdecode) with
          ⟨_, _, _, _, he⟩ | ⟨_, _, he, hpos, hfits⟩
        · cases he
        · cases he
          obtain ⟨hready', hroom⟩ := hready.makeRoom hfits
          have hfree : 0 < (b.makeRoom missing).room := by
            have hfree := of_decide_eq_true hroom
            rw [ReadBuffer.room]
            omega
          rw [frontMessage_of_notEnough hdecode, if_pos hroom]
          refine .more _ hready' hfree ?_ fun tail => ?_
          · rw [pending_makeRoom, results_of_notEnough hdecode]
          · rw [pending_makeRoom]
      · have hmore' : ∀ missing part, e ≠ .notEnough missing part :=
          fun missing part he => hmore ⟨missing, part, he⟩
        have hkind' : ∀ kind size, e ≠ .unsupported kind size :=
          fun kind size he => hkind kind size (he ▸ hdecode)
        have hresults : ∀ tail, results limit (b.pending ++ tail) = [.error (.decode e)] :=
          fun tail => results_of_error (decode_append_of_error hdecode hmore' tail) hmore' hkind'
        rw [frontMessage_of_error hdecode hmore' hkind']
        exact .failed e b hready hresults hresults

theorem frontMessage_spec {limit : UInt32} {fuel : Nat} {b : ReadBuffer} (hready : b.Ready limit)
    (hfuel : b.pending.length ≤ fuel) : Says limit b (b.frontMessage limit fuel) := by
  induction fuel generalizing b with
  | zero =>
      have hempty := List.length_eq_zero_iff.mp (Nat.le_zero.mp hfuel)
      apply says_of_spoken hready
      rw [hempty]
      exact fun kind size h => by cases h
  | succ fuel ih =>
      by_cases hkind : ∃ kind size, decode b.pending limit = .error (.unsupported kind size)
      · obtain ⟨kind, size, hdecode⟩ := hkind
        have hframe := frameLength_of_unsupported hdecode
        have hsize := le_length_of_frameLength hframe
        have hpos := four_le_of_frameLength hframe
        have hstep : b.frontMessage limit (fuel + 1)
            = (b.consume size).frontMessage limit fuel := by
          rw [frontMessage.eq_def, hdecode]
        have hresults : ∀ tail, results limit (b.pending ++ tail)
            = results limit ((b.consume size).pending ++ tail) := fun tail => by
          rw [results_of_unsupported (decode_append_of_error hdecode (fun _ _ he => by cases he) tail),
            pending_consume, List.drop_append_of_le_length hsize]
        have hrest : (b.consume size).pending.length ≤ fuel := by
          rw [pending_consume, List.length_drop]
          omega
        have hsays := ih (hready.consume hsize) hrest
        rw [hstep]
        generalize (b.consume size).frontMessage limit fuel = front at hsays ⊢
        cases hsays with
        | item m rest hready' hitem =>
            exact .item m rest hready' fun tail => (hresults tail).trans (hitem tail)
        | more b' hready' hroom hopen hmore =>
            exact .more b' hready' hroom hopen fun tail => (hresults tail).trans (hmore tail)
        | failed e b' hready' hfailed hsame =>
            exact .failed e b' hready' (fun tail => (hresults tail).trans (hfailed tail)) hsame
      · exact says_of_spoken hready (fun kind size h => hkind ⟨kind, size, h⟩) _

theorem message_spec {limit : UInt32} {b : ReadBuffer} (hready : b.Ready limit) :
    Says limit b (b.message limit) :=
  frontMessage_spec hready (Nat.le_refl _)

end ReadBuffer

end TorrentCore
