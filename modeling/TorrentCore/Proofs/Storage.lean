import TorrentCore.Proofs.Assembly
import TorrentCore.Proofs.Bytes
import TorrentCore.Storage

/-!
# Pieces in storage

Writing a whole piece puts its bytes at their place. A range that has nothing in common with that
place reads as before, be it inside the storage or not.
-/

namespace TorrentCore

namespace Storage

theorem stop_eq_ok_iff {s : Storage} {offset length stop : Nat} :
    s.stop offset length = .ok stop
      ↔ offset + length < 18446744073709551616 ∧ offset + length ≤ s.bytes.length
        ∧ stop = offset + length := by
  unfold Storage.stop
  split
  · exact ⟨fun h => (by cases h), fun h => by omega⟩
  · split
    · exact ⟨fun h => (by cases h), fun h => by omega⟩
    · rw [Except.ok.injEq]
      exact ⟨fun h => by omega, fun h => h.2.2.symm⟩

theorem read_eq_ok_iff {s : Storage} {offset length : Nat} {bytes : Bytes} :
    s.read offset length = .ok bytes
      ↔ offset + length < 18446744073709551616 ∧ offset + length ≤ s.bytes.length
        ∧ bytes = s.bytes.slice offset length := by
  unfold read
  split
  · next e h =>
    refine ⟨fun he => (by cases he), fun hok => ?_⟩
    rw [stop_eq_ok_iff.mpr ⟨hok.1, hok.2.1, rfl⟩] at h
    cases h
  · next stop h =>
    obtain ⟨hword, hfits, _⟩ := stop_eq_ok_iff.mp h
    rw [Except.ok.injEq]
    exact ⟨fun he => ⟨hword, hfits, he.symm⟩, fun hok => hok.2.2.symm⟩

theorem read_within {s : Storage} {offset length start count : Nat} {bytes : Bytes}
    (h : s.read offset length = .ok bytes) (hwithin : start + count ≤ length) :
    s.read (offset + start) count = .ok (bytes.slice start count)
      ∧ (bytes.slice start count).length = count := by
  obtain ⟨hword, hfits, rfl⟩ := read_eq_ok_iff.mp h
  constructor
  · refine read_eq_ok_iff.mpr ⟨by omega, by omega, ?_⟩
    rw [Bytes.slice, Bytes.slice, Bytes.slice, List.drop_take, List.drop_drop, List.take_take,
      Nat.min_eq_left (by omega)]
  · rw [Bytes.slice, Bytes.slice, List.length_take, List.length_drop, List.length_take,
      List.length_drop]
    omega

theorem writePiece_eq_ok_iff {s s' : Storage} {offset : Nat} {p : AssembledPiece} (hp : p.Whole) :
    s.writePiece offset p = .ok s'
      ↔ offset + p.length < 18446744073709551616 ∧ offset + p.length ≤ s.bytes.length
        ∧ s' = ⟨s.bytes.overwrite offset p.bytes⟩ := by
  unfold writePiece
  split
  · next e h =>
    refine ⟨fun he => (by cases he), fun hok => ?_⟩
    rw [stop_eq_ok_iff.mpr ⟨hok.1, hok.2.1, rfl⟩] at h
    cases h
  · next stop h =>
    obtain ⟨hword, hfits, _⟩ := stop_eq_ok_iff.mp h
    have hout : (s.bytes.slice offset p.length).length = p.length := by
      rw [Bytes.slice, List.length_take, List.length_drop]
      omega
    rw [hp.writeRange hout]
    simp only [ne_eq, not_true_eq_false, if_false, Except.ok.injEq]
    exact ⟨fun he => ⟨hword, hfits, he.symm⟩, fun hok => hok.2.2.symm⟩

theorem read_writePiece {s s' : Storage} {offset : Nat} {p : AssembledPiece} (hp : p.Whole)
    (h : s.writePiece offset p = .ok s') : s'.read offset p.length = .ok p.bytes := by
  obtain ⟨hword, hfits, rfl⟩ := (writePiece_eq_ok_iff hp).mp h
  have hfits' : offset + p.bytes.length ≤ s.bytes.length := by
    rw [hp]
    exact hfits
  refine read_eq_ok_iff.mpr ⟨hword, ?_, ?_⟩
  · show _ ≤ (s.bytes.overwrite offset p.bytes).length
    rw [Bytes.length_overwrite hfits']
    exact hfits
  · show p.bytes = (s.bytes.overwrite offset p.bytes).slice offset p.length
    rw [← hp, Bytes.slice_overwrite_self hfits']

theorem read_writePiece_of_disjoint {s s' : Storage} {offset offset' length' : Nat}
    {p : AssembledPiece} (hp : p.Whole) (h : s.writePiece offset p = .ok s')
    (hdisjoint : offset' + length' ≤ offset ∨ offset + p.length ≤ offset') {bytes : Bytes}
    (hread : s.read offset' length' = .ok bytes) : s'.read offset' length' = .ok bytes := by
  obtain ⟨_, hfits, rfl⟩ := (writePiece_eq_ok_iff hp).mp h
  obtain ⟨hword', hfits', rfl⟩ := read_eq_ok_iff.mp hread
  rw [← hp] at hfits hdisjoint
  refine read_eq_ok_iff.mpr ⟨hword', ?_, ?_⟩
  · show _ ≤ (s.bytes.overwrite offset p.bytes).length
    rw [Bytes.length_overwrite hfits]
    exact hfits'
  · exact (Bytes.slice_overwrite_of_disjoint hfits hdisjoint).symm

end Storage

end TorrentCore
