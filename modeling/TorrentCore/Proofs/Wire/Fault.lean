import TorrentCore.Error
import TorrentCore.Proofs.Bytes
import TorrentCore.Proofs.Wire.Handshake

/-!
# Why bytes are no handshake

Every failure to read a handshake has one place among the bytes: the length byte, the name, or the
part in which the bytes end. A wrong length byte and a wrong name stay wrong whatever comes behind
them. The other failures only say how far the bytes go, and go away as more of them come. So the
answer to a whole stream is told from its bytes alone, by `fault`.
-/

namespace TorrentCore

namespace Handshake

/-- The error of a stream that does not begin with a handshake and ends after these bytes. -/
def fault : Bytes → HandshakeError
  | [] => .noResponse
  | length :: rest =>
    if length ≠ 19 then .badLength length
    else if ¬ rest.take 19 <+: protocolName ∨ rest.length < 19 then .protocolMismatch
    else if rest.length < 27 then .shortReserved
    else if rest.length < 47 then .shortInfoHash
    else .shortPeerId

/-- How bytes fail to begin with a handshake, and the error that says so. -/
inductive Fails : Bytes → HandshakeDecodeError → Prop
  | empty : Fails [] .empty
  | badLength {length : UInt8} {rest : Bytes} (hlength : length ≠ 19) :
      Fails (length :: rest) (.badLength length)
  | mismatch {rest : Bytes} (hname : ¬ rest.take 19 <+: protocolName) :
      Fails (19 :: rest) .protocolMismatch
  | inName {rest : Bytes} (hname : rest.take 19 <+: protocolName) (hless : rest.length < 19) :
      Fails (19 :: rest) .shortProtocolName
  | inReserved {rest : Bytes} (hname : rest.take 19 <+: protocolName) (hle : 19 ≤ rest.length)
      (hless : rest.length < 27) : Fails (19 :: rest) .shortReserved
  | inInfoHash {rest : Bytes} (hname : rest.take 19 <+: protocolName) (hle : 27 ≤ rest.length)
      (hless : rest.length < 47) : Fails (19 :: rest) .shortInfoHash
  | inPeerId {rest : Bytes} (hname : rest.take 19 <+: protocolName) (hle : 47 ≤ rest.length)
      (hless : rest.length < 67) : Fails (19 :: rest) .shortPeerId

theorem length_of_ofBytes?_none {rest : Bytes} {start : Nat}
    (h : Identifier.ofBytes? (rest.slice start 20) = none) : rest.length < start + 20 := by
  unfold Identifier.ofBytes? at h
  split at h
  · cases h
  · next hlength =>
    rw [Bytes.length_slice] at hlength
    omega

theorem length_of_ofBytes?_some {rest : Bytes} {start : Nat} {id : Identifier}
    (h : Identifier.ofBytes? (rest.slice start 20) = some id) : start + 20 ≤ rest.length := by
  have hlength := congrArg List.length (Identifier.ofBytes?_eq_some_iff.mp h)
  rw [id.length_bytes, Bytes.length_slice] at hlength
  omega

theorem fails_of_decode {bytes : Bytes} {e : HandshakeDecodeError} (h : decode bytes = .error e) :
    Fails bytes e := by
  cases bytes with
  | nil =>
      cases h
      exact .empty
  | cons length rest =>
      rw [decode] at h
      split at h
      · next hlength =>
        cases h
        exact .badLength hlength
      next hlength =>
      obtain rfl := Decidable.not_not.mp hlength
      have hcount : (rest.take 19).length = min 19 rest.length := List.length_take
      simp only [ne_eq, ← List.prefix_iff_eq_take] at h
      split at h
      · next hname =>
        cases h
        exact .mismatch hname
      next hname =>
      rw [Decidable.not_not] at hname
      split at h
      · next hshort =>
        cases h
        exact .inName hname (by omega)
      next hlong =>
      have hreserved := Bytes.length_slice rest 19 8
      split at h
      · split at h
        · next hinfo =>
          cases h
          exact .inInfoHash hname (by omega) (length_of_ofBytes?_none hinfo)
        next infoHash hinfo =>
        split at h
        · next hpeer =>
          cases h
          exact .inPeerId hname (length_of_ofBytes?_some hinfo) (length_of_ofBytes?_none hpeer)
        · cases h
      · cases h
        exact .inReserved hname (by omega) (by omega)

variable {bytes : Bytes} {e : HandshakeDecodeError}

theorem Fails.length_lt (h : Fails bytes e) (hshort : IsShort e) :
    bytes.length < handshakeLength := by
  cases h with
  | empty => decide
  | badLength _ => exact hshort.elim
  | mismatch _ => exact hshort.elim
  | inName _ hless | inReserved _ _ hless | inInfoHash _ _ hless | inPeerId _ _ hless =>
      rw [List.length_cons, handshakeLength]
      omega

theorem Fails.fault_eq_of_isShort (h : Fails bytes e) (hshort : IsShort e) :
    fault bytes = .ofTruncated e := by
  cases h with
  | empty => rfl
  | badLength _ => exact hshort.elim
  | mismatch _ => exact hshort.elim
  | inName hname hless =>
      rw [fault, if_neg (by decide), if_pos (Or.inr hless)]
      rfl
  | inReserved hname hle hless =>
      rw [fault, if_neg (by decide), if_neg (by simp [hname, hle]), if_pos hless]
      rfl
  | inInfoHash hname hle hless =>
      have hlong : 19 ≤ List.length _ := Nat.le_trans (by decide) hle
      rw [fault, if_neg (by decide), if_neg (by simp [hname, hlong]), if_neg (by omega),
        if_pos hless]
      rfl
  | inPeerId hname hle hless =>
      have hlong : 19 ≤ List.length _ := Nat.le_trans (by decide) hle
      rw [fault, if_neg (by decide), if_neg (by simp [hname, hlong]), if_neg (by omega),
        if_neg (by omega)]
      rfl

theorem fault_append_of_badLength {length : UInt8} (h : Fails bytes (.badLength length))
    (more : Bytes) : fault (bytes ++ more) = .badLength length := by
  cases h with
  | badLength hlength => exact if_pos hlength

/-- A wrong name stays wrong, however few bytes of it are there. -/
theorem fault_append_of_mismatch (h : Fails bytes .protocolMismatch) (more : Bytes) :
    fault (bytes ++ more) = .protocolMismatch := by
  cases h with
  | @mismatch rest hname =>
      have hfront : rest.take 19 <+: (rest ++ more).take 19 := by
        rw [List.take_append]
        exact List.prefix_append _ _
      have hwrong : ¬ (rest ++ more).take 19 <+: protocolName := fun h => hname (hfront.trans h)
      rw [List.cons_append, fault, if_neg (by decide), if_pos (Or.inl hwrong)]

theorem isShort_of_prefix {h : Handshake} {more : Bytes} (hfails : Fails bytes e)
    (hencode : h.encode <+: bytes ++ more) : IsShort e := by
  obtain ⟨tail, htail⟩ := hencode
  cases hfails with
  | badLength hlength =>
      rw [encode, List.cons_append, List.cons_append, List.cons.injEq] at htail
      exact hlength htail.1.symm
  | @mismatch rest hname =>
      rw [encode, List.cons_append, List.cons_append, List.cons.injEq] at htail
      have hwhole := (slices_of_encode h tail).1
      rw [htail.2, List.take_append] at hwhole
      exact hname ⟨_, hwhole⟩
  | empty | inName _ _ | inReserved _ _ _ | inInfoHash _ _ _ | inPeerId _ _ _ => trivial

theorem encode_prefix_iff {h : Handshake} : h.encode <+: bytes
    ↔ handshakeLength ≤ bytes.length ∧ bytes.take handshakeLength = h.encode := by
  rw [List.prefix_iff_eq_take, length_encode]
  constructor
  · intro hfront
    refine ⟨?_, hfront.symm⟩
    have hlength := congrArg List.length hfront
    rw [length_encode, List.length_take] at hlength
    omega
  · rintro ⟨-, hfront⟩
    exact hfront.symm

end Handshake

end TorrentCore
