import TorrentCore.Proofs.Wire.Frame

/-!
# The codec is exact

Writing a message and reading it back gives the message, whatever follows it; and whatever is read
as a message is, byte for byte, the frame of that message. So the frames that are accepted are
exactly those that are written, with one exception: a piece message without a block is written but
never accepted.

Both directions are statements about one body: `ofBody_body` reads what was written, and
`body_of_ofBody` writes what was read.
-/

namespace TorrentCore

namespace Message

open Bytes

def body (m : Message) : Bytes := m.kind?.toList ++ m.payload

theorem encode_eq (m : Message) : m.encode = ofWord m.lengthWord ++ m.body := by
  rw [encode, body, List.append_assoc]

theorem toNat_lengthWord {m : Message} (h : m.body.length < 4294967296) :
    m.lengthWord.toNat = m.body.length := by
  cases m with
  | bitfield bits =>
      simp only [body, kind?, payload, Option.toList_some, List.length_append, List.length_cons,
        List.length_nil] at h ⊢
      simp only [lengthWord, UInt32.toNat_add, UInt32.toNat_ofNat', UInt32.toNat_one]
      omega
  | piece index offset block =>
      simp only [body, kind?, payload, Option.toList_some, List.length_append, List.length_cons,
        List.length_nil, length_ofWord] at h ⊢
      simp only [lengthWord, UInt32.toNat_add, UInt32.toNat_ofNat', UInt32.reduceToNat]
      omega
  | _ => rfl

theorem length_encode {m : Message} (h : m.body.length < 4294967296) :
    m.encode.length = m.wireLength := by
  rw [encode_eq, List.length_append, length_ofWord, wireLength, toNat_lengthWord h]

/-- Piece messages that hold nothing are not accepted. -/
def HasContent (m : Message) : Prop := ∀ index offset, m ≠ .piece index offset []

theorem ofBody_body {m : Message} (h : m.body.length < 4294967296) (hcontent : m.HasContent) :
    ofBody m.lengthWord m.body = .ok m := by
  cases m with
  | piece index offset block =>
      have hblock : block ≠ [] := fun he => hcontent index offset (he ▸ rfl)
      have hpositive := List.length_pos_iff.mpr hblock
      have hword := toNat_lengthWord h
      have hten : ¬ (piece index offset block).lengthWord < 10 := by
        rw [UInt32.lt_iff_toNat_lt, hword]
        simp only [body, kind?, payload, Option.toList_some, List.length_append, List.length_cons,
          List.length_nil, length_ofWord, UInt32.reduceToNat]
        omega
      simp [ofBody, body, kind?, payload, ofPayload, hten, List.append_assoc]
  | request r | cancel r =>
      simp [ofBody, body, kind?, payload, lengthWord, ofPayload, List.append_assoc]
  | _ => simp [ofBody, body, kind?, payload, lengthWord, ofPayload]

theorem eq_two_words {payload : Bytes} (h : 8 ≤ payload.length) :
    payload = ofWord payload.toWord ++ ofWord (Bytes.toWord (payload.drop 4))
      ++ payload.drop 8 := by
  have hfirst : lengthWordSize ≤ payload.length := Nat.le_trans (by decide) h
  obtain ⟨first, tail, rfl⟩ := eq_ofWord_append_of_le hfirst
  rw [List.length_append, length_ofWord] at h
  have hsecond : lengthWordSize ≤ tail.length := by
    rw [lengthWordSize]
    omega
  obtain ⟨second, rest, rfl⟩ := eq_ofWord_append_of_le hsecond
  rw [toWord_ofWord_append, drop_ofWord_append, toWord_ofWord_append, drop_two_ofWord_append,
    List.append_assoc]

theorem eq_three_words {payload : Bytes} (h : payload.length = 12) :
    payload = ofWord payload.toWord ++ ofWord (Bytes.toWord (payload.drop 4))
      ++ ofWord (Bytes.toWord (payload.drop 8)) := by
  have hlast : (payload.drop 8).length = 4 := by
    rw [List.length_drop]
    omega
  rw [← eq_ofWord_of_length hlast]
  exact eq_two_words (by omega)

theorem of_exact_length {word expected : UInt32} {m m' : Message} {e : DecodeError}
    (h : (if word = expected then .ok m' else .error e : Except DecodeError Message) = .ok m) :
    word = expected ∧ m' = m := by
  split at h
  · next hword => exact ⟨hword, Except.ok.inj h⟩
  · cases h

theorem body_of_ofPayload {word : UInt32} {kind : UInt8} {payload : Bytes} {frame : Nat}
    {m : Message} (hlength : payload.length + 1 = word.toNat)
    (h : ofPayload word kind payload frame = .ok m) : m.body = kind :: payload ∧ m.HasContent := by
  have hkind : ∀ {n : Nat}, kind.toNat = n → kind = UInt8.ofNat n := by
    rintro n rfl
    exact UInt8.ofNat_toNat.symm
  -- One case for each kind; the length word then tells how long the payload is.
  simp only [ofPayload] at h
  split at h
  case h_1 hnat | h_2 hnat | h_3 hnat | h_4 hnat =>
    obtain ⟨rfl, rfl⟩ := of_exact_length h
    obtain rfl : payload = [] := List.length_eq_zero_iff.mp (Nat.succ.inj hlength)
    rw [hkind hnat]
    exact ⟨rfl, fun _ _ he => Message.noConfusion he⟩
  case h_5 hnat =>
    obtain ⟨rfl, rfl⟩ := of_exact_length h
    have hword : payload = _ := eq_ofWord_of_length (Nat.succ.inj hlength)
    refine ⟨?_, fun _ _ he => Message.noConfusion he⟩
    rw [hkind hnat]
    exact congrArg (4 :: ·) hword.symm
  case h_6 hnat =>
    cases h
    rw [hkind hnat]
    exact ⟨rfl, fun _ _ he => Message.noConfusion he⟩
  case h_7 hnat =>
    obtain ⟨rfl, rfl⟩ := of_exact_length h
    have hwords : payload = _ := eq_three_words (Nat.succ.inj hlength)
    refine ⟨?_, fun _ _ he => Message.noConfusion he⟩
    rw [hkind hnat]
    exact congrArg (6 :: ·) hwords.symm
  case h_8 hnat =>
    split at h
    · cases h
    · next hten =>
      cases h
      simp only [UInt32.lt_iff_toNat_lt, UInt32.reduceToNat] at hten
      have hwords : payload = _ := eq_two_words (by omega)
      refine ⟨?_, fun index offset he => ?_⟩
      · rw [hkind hnat]
        exact congrArg (7 :: ·) hwords.symm
      · have hempty : (payload.drop 8).length = 0 := by
          rw [(Message.piece.inj he).2.2]
          rfl
        rw [List.length_drop] at hempty
        omega
  case h_9 hnat =>
    obtain ⟨rfl, rfl⟩ := of_exact_length h
    have hwords : payload = _ := eq_three_words (Nat.succ.inj hlength)
    refine ⟨?_, fun _ _ he => Message.noConfusion he⟩
    rw [hkind hnat]
    exact congrArg (8 :: ·) hwords.symm
  case h_10 => cases h

theorem body_of_ofBody {word : UInt32} {bytes : Bytes} {m : Message}
    (hlength : bytes.length = word.toNat) (h : ofBody word bytes = .ok m) :
    m.body = bytes ∧ m.HasContent := by
  cases bytes with
  | nil =>
      cases h
      exact ⟨rfl, fun _ _ he => Message.noConfusion he⟩
  | cons kind payload =>
      rw [List.length_cons] at hlength
      exact body_of_ofPayload hlength h

theorem decode_encode_append {m : Message} {limit : UInt32} (h : m.body.length < 4294967296)
    (hlimit : m.lengthWord ≤ limit) (hcontent : m.HasContent) (rest : Bytes) :
    decode (m.encode ++ rest) limit = .ok (m, m.wireLength) := by
  rw [encode_eq, List.append_assoc, decode_frame hlimit (toNat_lengthWord h).symm,
    ofBody_body h hcontent]
  rfl

/-- What was decoded stands at the front, framed as its sender would have framed it. -/
theorem decode_eq_ok {bytes : Bytes} {limit : UInt32} {m : Message} {size : Nat}
    (h : decode bytes limit = .ok (m, size)) :
    ∃ rest, bytes = m.encode ++ rest ∧ frameLength bytes limit = .ok size
      ∧ size = m.encode.length ∧ m.body.length < 4294967296 ∧ m.lengthWord ≤ limit
      ∧ m.HasContent := by
  have hframe := frameLength_of_ok h
  obtain ⟨word, bytes', rest, rfl, hlimit, hlength, rfl⟩ := frameLength_eq_ok_iff.mp hframe
  rw [decode_frame hlimit hlength] at h
  cases hbody : ofBody word bytes' with
  | error e =>
      rw [hbody] at h
      cases h
  | ok m' =>
      rw [hbody] at h
      cases h
      obtain ⟨rfl, hcontent⟩ := body_of_ofBody hlength hbody
      have hfits : m.body.length < 4294967296 := hlength ▸ word.toNat_lt
      have hword : m.lengthWord = word :=
        UInt32.toNat_inj.mp ((toNat_lengthWord hfits).trans hlength)
      have hencode : m.encode = ofWord word ++ m.body := by rw [encode_eq, hword]
      refine ⟨rest, ?_, hframe, ?_, hfits, hword ▸ hlimit, hcontent⟩
      · rw [hencode, List.append_assoc]
      · rw [hencode, List.length_append, length_ofWord, hlength]

/-- The codec is exact in both directions. A message whose frame fits its length word and the limit
is read back whatever follows it, and whatever is read as a message is the frame of that message. -/
theorem codec_exact (limit : UInt32) :
    (∀ (m : Message) (rest : Bytes),
        m.body.length < 4294967296 → m.lengthWord ≤ limit → m.HasContent →
        decode (m.encode ++ rest) limit = .ok (m, m.wireLength)
          ∧ m.encode.length = m.wireLength)
      ∧ ∀ (bytes : Bytes) (m : Message) (size : Nat), decode bytes limit = .ok (m, size) →
          size ≤ bytes.length ∧ frameLength bytes limit = .ok size
            ∧ m.encode = bytes.take size
            ∧ m.body.length < 4294967296 ∧ m.lengthWord ≤ limit ∧ m.HasContent := by
  refine ⟨fun m rest hfits hlimit hcontent => ?_, fun bytes m size h => ?_⟩
  · exact ⟨decode_encode_append hfits hlimit hcontent rest, length_encode hfits⟩
  · obtain ⟨rest, rfl, hframe, rfl, hfits, hlimit, hcontent⟩ := decode_eq_ok h
    refine ⟨le_length_of_frameLength hframe, hframe, ?_, hfits, hlimit, hcontent⟩
    rw [List.take_left]

/-- A block of one byte, at a limit that leaves no room for two, with a byte of the next frame. -/
theorem codec_exact_shortest_piece :
    decode ((piece 1 2 [255]).encode ++ [0]) 10 = .ok (piece 1 2 [255], 14)
      ∧ decode (piece 1 2 [255]).encode 10 = .ok (piece 1 2 [255], 14)
      ∧ (piece 1 2 [255]).encode = [0, 0, 0, 10, 7, 0, 0, 0, 1, 0, 0, 0, 2, 255] := by
  have hcontent : (piece 1 2 [255]).HasContent := fun _ _ he =>
    List.cons_ne_nil _ _ (Message.piece.inj he).2.2
  have hread := fun rest => ((codec_exact 10).1 _ rest (by decide) (by decide) hcontent).1
  have hwritten := ((codec_exact 10).2 _ _ _ (hread [])).2.2.1
  exact ⟨hread [0], List.append_nil (piece 1 2 [255]).encode ▸ hread [], hwritten⟩

end Message

end TorrentCore
