import TorrentCore.Proofs.Wire.Frame
import TorrentCore.Wire.Handshake

/-!
# Handshakes and their first bytes

A handshake is read back whatever follows it. A first part of one is never taken for something
else: it is only found to be too short.
-/

namespace TorrentCore

theorem length_protocolName : protocolName.length = 19 := by decide +kernel

namespace Handshake

@[simp] theorem length_encode (h : Handshake) : h.encode.length = handshakeLength := by
  simp only [encode, List.length_cons, List.length_append, length_protocolName, h.length_reserved,
    h.infoHash.length_bytes, h.peerId.length_bytes, handshakeLength]

theorem slices_of_encode (h : Handshake) (more : Bytes) :
    let rest := protocolName ++ h.reserved ++ h.infoHash.bytes ++ h.peerId.bytes ++ more
    rest.take 19 = protocolName ∧ Bytes.slice rest 19 8 = h.reserved
      ∧ Bytes.slice rest 27 20 = h.infoHash.bytes ∧ Bytes.slice rest 47 20 = h.peerId.bytes := by
  have hname := length_protocolName
  have hreserved := h.length_reserved
  have hinfo := h.infoHash.length_bytes
  have hpeer := h.peerId.length_bytes
  refine ⟨?_, ?_, ?_, ?_⟩
  · rw [List.append_assoc, List.append_assoc, List.append_assoc, ← hname, List.take_left]
  · rw [List.append_assoc, List.append_assoc, List.append_assoc, Bytes.slice, ← hname,
      List.drop_left, ← hreserved, List.take_left]
  · have hfront : (protocolName ++ h.reserved).length = 27 := by
      rw [List.length_append, hname, hreserved]
    rw [List.append_assoc, List.append_assoc, Bytes.slice, ← hfront, List.drop_left, ← hinfo,
      List.take_left]
  · have hfront : (protocolName ++ h.reserved ++ h.infoHash.bytes).length = 47 := by
      rw [List.length_append, List.length_append, hname, hreserved, hinfo]
    rw [List.append_assoc, Bytes.slice, ← hfront, List.drop_left, ← hpeer, List.take_left]

theorem decode_encode_append (h : Handshake) (more : Bytes) :
    decode (h.encode ++ more) = .ok h := by
  obtain ⟨hname, hreserved, hinfo, hpeer⟩ := slices_of_encode h more
  have hwhole : protocolName.take 19 = protocolName :=
    List.take_of_length_le (Nat.le_of_eq length_protocolName)
  rw [encode, List.cons_append, decode, if_neg (not_not_intro rfl)]
  simp only [hname, length_protocolName, hreserved, hinfo, hpeer, h.length_reserved,
    Identifier.ofBytes?_bytes]
  rw [if_neg (not_not_intro hwhole.symm), if_neg (Nat.lt_irrefl _), dif_pos trivial]

/-- A handshake is read where its bytes are at the front, and nowhere else. -/
theorem decode_eq_ok_iff {bytes : Bytes} {h : Handshake} :
    decode bytes = .ok h ↔ h.encode <+: bytes := by
  constructor
  · intro hdecode
    cases bytes with
    | nil => cases hdecode
    | cons length rest =>
        rw [decode] at hdecode
        split at hdecode
        · cases hdecode
        next hlength =>
        dsimp only at hdecode
        split at hdecode
        · cases hdecode
        next hname =>
        split at hdecode
        · cases hdecode
        next hlong =>
        split at hdecode
        next hreserved =>
          split at hdecode
          · cases hdecode
          next infoHash hinfo =>
          split at hdecode
          · cases hdecode
          next peerId hpeer =>
          cases hdecode
          have hcount : (rest.take 19).length = 19 := by
            rw [List.length_take] at hlong ⊢
            omega
          rw [hcount, List.take_of_length_le (Nat.le_of_eq length_protocolName)] at hname
          have hparts : rest.take 67 = rest.take 19 ++ Bytes.slice rest 19 8
              ++ Bytes.slice rest 27 20 ++ Bytes.slice rest 47 20 := by
            simp only [Bytes.slice, ← List.take_add]
          rw [encode, Decidable.not_not.mp hlength, ← Decidable.not_not.mp hname,
            Identifier.ofBytes?_eq_some_iff.mp hinfo, Identifier.ofBytes?_eq_some_iff.mp hpeer,
            ← hparts]
          exact ⟨rest.drop 67, by rw [List.cons_append, List.take_append_drop]⟩
        · cases hdecode
  · rintro ⟨more, rfl⟩
    exact h.decode_encode_append more

def IsShort : HandshakeDecodeError → Prop
  | .badLength _ | .protocolMismatch => False
  | _ => True

theorem decode_of_short {rest : Bytes}
    (hname : rest.take 19 = protocolName.take (rest.take 19).length)
    (hshort : rest.length < 67) : ∃ e, decode (19 :: rest) = .error e ∧ IsShort e := by
  have hpeer : Identifier.ofBytes? (Bytes.slice rest 47 20) = none := by
    refine dif_neg fun h => ?_
    rw [Bytes.slice, List.length_take, List.length_drop] at h
    omega
  rw [decode, if_neg (not_not_intro rfl)]
  simp only [hpeer]
  rw [if_neg (not_not_intro hname)]
  split
  · exact ⟨_, rfl, trivial⟩
  · split
    · split
      · exact ⟨_, rfl, trivial⟩
      · exact ⟨_, rfl, trivial⟩
    · exact ⟨_, rfl, trivial⟩

theorem decode_of_front {h : Handshake} {bytes more : Bytes} (hfront : bytes ++ more = h.encode)
    (hmore : more ≠ []) : ∃ e, decode bytes = .error e ∧ IsShort e := by
  have hlength := congrArg List.length hfront
  rw [List.length_append, length_encode, handshakeLength] at hlength
  have hpos := List.length_pos_iff.mpr hmore
  cases bytes with
  | nil => exact ⟨.empty, rfl, trivial⟩
  | cons length rest =>
      rw [encode, List.cons_append, List.cons.injEq] at hfront
      obtain ⟨rfl, hrest⟩ := hfront
      rw [List.length_cons] at hlength
      refine decode_of_short ?_ (by omega)
      have hname := (slices_of_encode h []).1
      rw [List.append_nil, ← hrest] at hname
      rw [← hname, List.length_take]
      by_cases hle : 19 ≤ rest.length
      · rw [Nat.min_eq_left hle, List.take_take, Nat.min_self, List.take_append_of_le_length hle]
      · have hle' : rest.length ≤ 19 := Nat.le_of_not_le hle
        rw [Nat.min_eq_right hle', List.take_take, Nat.min_eq_left hle', List.take_left,
          List.take_of_length_le hle']

end Handshake

end TorrentCore
