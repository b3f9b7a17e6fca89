import TorrentCore.Wire.Message

/-!
# Frames

A frame is its length word and a body of that many bytes. Everything that is proved about taking
messages off a byte string goes through the two ways a byte string can begin: with fewer bytes than
a length word has, or with a length word. From there on `frameLength` is a comparison of numbers,
and `decode` a function of the body alone.
-/

namespace TorrentCore

namespace Bytes

theorem eq_ofWord_append_of_le {bytes : Bytes} (h : lengthWordSize ≤ bytes.length) :
    ∃ word rest, bytes = ofWord word ++ rest := by
  match bytes, h with
  | a :: b :: c :: d :: rest, _ =>
    refine ⟨joinWord a b c d, rest, ?_⟩
    rw [ofWord_joinWord]
    rfl

theorem eq_ofWord_of_length {bytes : Bytes} (h : bytes.length = 4) :
    bytes = ofWord bytes.toWord := by
  obtain ⟨word, rest, rfl⟩ := eq_ofWord_append_of_le (Nat.le_of_eq h.symm)
  have hrest : rest = [] := by
    rw [List.length_append, length_ofWord] at h
    exact List.length_eq_zero_iff.mp (by omega)
  rw [toWord_ofWord_append, hrest, List.append_nil]

@[simp] theorem drop_ofWord_append (word : UInt32) (rest : Bytes) :
    (ofWord word ++ rest).drop 4 = rest := rfl

@[simp] theorem drop_two_ofWord_append (first second : UInt32) (rest : Bytes) :
    (ofWord first ++ (ofWord second ++ rest)).drop 8 = rest := rfl

@[simp] theorem toWord_ofWord (word : UInt32) : toWord (ofWord word) = word := by
  simpa using toWord_ofWord_append word []

end Bytes

namespace Message

open Bytes

/-! ### The length of the frame at the front -/

theorem frameLength_of_short {bytes : Bytes} (h : bytes.length < lengthWordSize) (limit : UInt32) :
    frameLength bytes limit = .error (.notEnough (4 - bytes.length) "length prefix") := by
  unfold frameLength
  split
  · simp only [List.length_cons, lengthWordSize] at h
    omega
  · rfl

theorem frameLength_ofWord_append (word : UInt32) (rest : Bytes) (limit : UInt32) :
    frameLength (ofWord word ++ rest) limit
      = if limit < word then .error (.tooLong word limit)
        else if rest.length < word.toNat then
          .error (.notEnough (word.toNat - rest.length) "message")
        else .ok (4 + word.toNat) := by
  have hfront : ofWord word ++ rest
      = UInt8.ofNat (word.toNat / 16777216) :: UInt8.ofNat (word.toNat / 65536)
        :: UInt8.ofNat (word.toNat / 256) :: UInt8.ofNat word.toNat :: rest := rfl
  have hword := toWord_ofWord_append word rest
  rw [hfront] at hword ⊢
  simp only [toWord] at hword
  simp only [frameLength, hword, Bytes.missing_eq]
  by_cases hlimit : limit < word
  · rw [if_pos hlimit, if_pos hlimit]
  · rw [if_neg hlimit, if_neg hlimit]
    by_cases hshort : rest.length < word.toNat
    · obtain ⟨missing, hmissing⟩ : ∃ k, word.toNat - rest.length = k + 1 :=
        ⟨word.toNat - rest.length - 1, by omega⟩
      rw [if_pos hshort, hmissing]
    · rw [if_neg hshort, Nat.sub_eq_zero_of_le (Nat.le_of_not_lt hshort)]

theorem frameLength_eq_ok_iff {bytes : Bytes} {limit : UInt32} {size : Nat} :
    frameLength bytes limit = .ok size
      ↔ ∃ word body rest, bytes = ofWord word ++ (body ++ rest) ∧ word ≤ limit
          ∧ body.length = word.toNat ∧ size = 4 + word.toNat := by
  constructor
  · intro h
    by_cases hshort : bytes.length < lengthWordSize
    · rw [frameLength_of_short hshort] at h
      cases h
    · obtain ⟨word, tail, rfl⟩ := eq_ofWord_append_of_le (Nat.le_of_not_lt hshort)
      rw [frameLength_ofWord_append] at h
      split at h
      · cases h
      · next hlimit =>
        split at h
        · cases h
        · next hlen =>
          cases h
          refine ⟨word, tail.take word.toNat, tail.drop word.toNat, ?_, ?_, ?_, rfl⟩
          · rw [List.take_append_drop]
          · exact UInt32.not_lt.mp hlimit
          · rw [List.length_take]
            omega
  · rintro ⟨word, body, rest, rfl, hlimit, hbody, rfl⟩
    have hlen : ¬ (body ++ rest).length < word.toNat := by
      rw [List.length_append]
      omega
    rw [frameLength_ofWord_append, if_neg (UInt32.not_lt.mpr hlimit), if_neg hlen]

theorem le_length_of_frameLength {bytes : Bytes} {limit : UInt32} {size : Nat}
    (h : frameLength bytes limit = .ok size) : size ≤ bytes.length := by
  obtain ⟨word, body, rest, rfl, _, hbody, rfl⟩ := frameLength_eq_ok_iff.mp h
  simp only [List.length_append, length_ofWord]
  omega

theorem four_le_of_frameLength {bytes : Bytes} {limit : UInt32} {size : Nat}
    (h : frameLength bytes limit = .ok size) : 4 ≤ size := by
  obtain ⟨word, body, rest, _, _, _, rfl⟩ := frameLength_eq_ok_iff.mp h
  omega

/-- Why there is no frame length: the length word asks for too much, or bytes are missing, and
never more of them than a frame within the limit has. -/
theorem frameLength_eq_error {bytes : Bytes} {limit : UInt32} {e : DecodeError}
    (h : frameLength bytes limit = .error e) :
    (∃ word rest, bytes = ofWord word ++ rest ∧ limit < word ∧ e = .tooLong word limit)
      ∨ ∃ missing part, e = .notEnough missing part ∧ 0 < missing
          ∧ bytes.length + missing ≤ limit.toNat + lengthWordSize := by
  by_cases hshort : bytes.length < lengthWordSize
  · rw [frameLength_of_short hshort] at h
    cases h
    simp only [lengthWordSize] at hshort ⊢
    exact Or.inr ⟨_, _, rfl, by omega, by omega⟩
  · obtain ⟨word, tail, rfl⟩ := eq_ofWord_append_of_le (Nat.le_of_not_lt hshort)
    rw [frameLength_ofWord_append] at h
    split at h
    · next hlimit =>
      cases h
      exact Or.inl ⟨word, tail, rfl, hlimit, rfl⟩
    · next hlimit =>
      have hle : word.toNat ≤ limit.toNat := UInt32.le_iff_toNat_le.mp (UInt32.not_lt.mp hlimit)
      split at h
      · next hmissing =>
        cases h
        refine Or.inr ⟨_, _, rfl, by omega, ?_⟩
        rw [List.length_append, length_ofWord, lengthWordSize]
        omega
      · cases h

/-! ### Decoding a frame -/

def ofBody (word : UInt32) : Bytes → Except DecodeError Message
  | [] => .ok .keepAlive
  | kind :: payload => ofPayload word kind payload (4 + word.toNat)

theorem decode_frame {word limit : UInt32} {body : Bytes} (hlimit : word ≤ limit)
    (hbody : body.length = word.toNat) (rest : Bytes) :
    decode (ofWord word ++ (body ++ rest)) limit
      = (ofBody word body).map fun m => (m, 4 + word.toNat) := by
  have hframe : frameLength (ofWord word ++ (body ++ rest)) limit = .ok (4 + word.toNat) :=
    frameLength_eq_ok_iff.mpr ⟨word, body, rest, rfl, hlimit, hbody, rfl⟩
  have hslice : Bytes.slice (ofWord word ++ (body ++ rest)) 4 (4 + word.toNat - 4) = body := by
    rw [slice, drop_ofWord_append, Nat.add_sub_cancel_left, ← hbody, List.take_left]
  rw [decode, hframe]
  simp only [hslice]
  cases body with
  | nil =>
      have hzero : word.toNat = 0 := hbody.symm
      simp [ofBody, hzero, Except.map]
  | cons kind payload =>
      simp only [ofBody, Nat.add_sub_cancel_left, UInt32.ofNat_toNat]

theorem decode_of_frameLength_error {bytes : Bytes} {limit : UInt32} {e : DecodeError}
    (h : frameLength bytes limit = .error e) : decode bytes limit = .error e := by
  rw [decode, h]

theorem ofBody_eq_error {word : UInt32} {body : Bytes} {e : DecodeError}
    (h : ofBody word body = .error e) :
    (∃ kind, e = .unsupported kind (4 + word.toNat))
      ∨ ∃ received expected kind, e = .wrongLength received expected kind := by
  cases body with
  | nil => cases h
  | cons kind payload =>
      simp only [ofBody, ofPayload] at h
      split at h
      case h_6 => cases h
      case h_10 =>
        cases h
        exact Or.inl ⟨kind, rfl⟩
      all_goals
        split at h <;> cases h
        exact Or.inr ⟨_, _, _, rfl⟩

/-- A failure to decode is one to find the frame, or the complaint about a whole frame. -/
theorem decode_eq_error {bytes : Bytes} {limit : UInt32} {e : DecodeError}
    (h : decode bytes limit = .error e) :
    frameLength bytes limit = .error e
      ∨ ∃ size, frameLength bytes limit = .ok size
          ∧ ((∃ kind, e = .unsupported kind size)
            ∨ ∃ received expected kind, e = .wrongLength received expected kind) := by
  cases hframe : frameLength bytes limit with
  | error e' =>
      rw [decode_of_frameLength_error hframe] at h
      cases h
      exact Or.inl rfl
  | ok size =>
      obtain ⟨word, body, rest, rfl, hlimit, hlength, rfl⟩ := frameLength_eq_ok_iff.mp hframe
      rw [decode_frame hlimit hlength] at h
      refine Or.inr ⟨_, rfl, ?_⟩
      cases hbody : ofBody word body with
      | ok m =>
          rw [hbody] at h
          cases h
      | error e' =>
          rw [hbody] at h
          cases h
          exact ofBody_eq_error hbody

theorem frameLength_of_ok {bytes : Bytes} {limit : UInt32} {m : Message} {size : Nat}
    (h : decode bytes limit = .ok (m, size)) : frameLength bytes limit = .ok size := by
  cases hframe : frameLength bytes limit with
  | error e =>
      rw [decode_of_frameLength_error hframe] at h
      cases h
  | ok size' =>
      obtain ⟨word, body, rest, rfl, hlimit, hlength, rfl⟩ := frameLength_eq_ok_iff.mp hframe
      rw [decode_frame hlimit hlength] at h
      cases hbody : ofBody word body with
      | error e =>
          rw [hbody] at h
          cases h
      | ok m' =>
          rw [hbody] at h
          cases h
          rfl

/-- A frame of a kind that is not spoken here is passed over whole. -/
theorem frameLength_of_unsupported {bytes : Bytes} {limit : UInt32} {kind : UInt8} {size : Nat}
    (h : decode bytes limit = .error (.unsupported kind size)) :
    frameLength bytes limit = .ok size := by
  rcases decode_eq_error h with hframe | ⟨size', hframe, ⟨_, he⟩ | ⟨_, _, _, he⟩⟩
  · rcases frameLength_eq_error hframe with ⟨_, _, _, _, he⟩ | ⟨_, _, he, _, _⟩ <;> cases he
  · cases he
    exact hframe
  · cases he

theorem frameLength_of_notEnough {bytes : Bytes} {limit : UInt32} {missing : Nat} {part : String}
    (h : decode bytes limit = .error (.notEnough missing part)) :
    frameLength bytes limit = .error (.notEnough missing part) := by
  rcases decode_eq_error h with hframe | ⟨_, _, ⟨_, he⟩ | ⟨_, _, _, he⟩⟩
  · exact hframe
  · cases he
  · cases he

/-! ### Bytes that follow

Once more bytes are not asked for, they change nothing. -/

theorem decode_append_of_frameLength {bytes : Bytes} {limit : UInt32} {size : Nat}
    (h : frameLength bytes limit = .ok size) (more : Bytes) :
    decode (bytes ++ more) limit = decode bytes limit := by
  obtain ⟨word, body, rest, rfl, hlimit, hlength, _⟩ := frameLength_eq_ok_iff.mp h
  rw [List.append_assoc, List.append_assoc, decode_frame hlimit hlength,
    decode_frame hlimit hlength]

theorem decode_append_of_ok {bytes : Bytes} {limit : UInt32} {m : Message} {size : Nat}
    (h : decode bytes limit = .ok (m, size)) (more : Bytes) :
    decode (bytes ++ more) limit = .ok (m, size) := by
  rw [decode_append_of_frameLength (frameLength_of_ok h), h]

theorem decode_append_of_error {bytes : Bytes} {limit : UInt32} {e : DecodeError}
    (h : decode bytes limit = .error e) (hfinal : ∀ missing part, e ≠ .notEnough missing part)
    (more : Bytes) : decode (bytes ++ more) limit = .error e := by
  rcases decode_eq_error h with hframe | ⟨size, hframe, _⟩
  · rcases frameLength_eq_error hframe with ⟨word, rest, rfl, hword, rfl⟩ | ⟨_, _, he, _⟩
    · apply decode_of_frameLength_error
      rw [List.append_assoc, frameLength_ofWord_append, if_pos hword]
    · exact absurd he (hfinal _ _)
  · rw [decode_append_of_frameLength hframe, h]

end Message

end TorrentCore
