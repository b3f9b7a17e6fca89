import TorrentCore.Proofs.Session.Turn

/-!
# Pieces under way

Whatever blocks come, the slots of a piece under way are filled only with blocks that fit them. So a
piece that is completed is whole and as long as a piece of its number, and it was asked from
somebody when its last block came.
-/

namespace TorrentCore

/-- A whole piece of its number. -/
structure Geometry.Fits (g : Geometry) (piece : AssembledPiece) : Prop where
  whole : piece.Whole
  length_eq : piece.length = (g.lengthOf ⟨UInt32.ofNat piece.piece⟩).toNat
  isWord : piece.piece < 4294967296

def Holdings.Filling (h : Holdings) : Prop := ∀ key buffer, h.unfinished.get? key = some buffer →
  buffer.assembler.Filling (UInt32.ofNat key).toNat (h.geometry.lengthOf ⟨UInt32.ofNat key⟩).toNat

namespace Holdings

variable {h : Holdings} {key : Nat}

theorem Filling.insert (hfilling : h.Filling) {buffer : PieceBuffer}
    (hbuffer : buffer.assembler.Filling (UInt32.ofNat key).toNat
      (h.geometry.lengthOf ⟨UInt32.ofNat key⟩).toNat) :
    Filling { h with unfinished := h.unfinished.insert key buffer } := by
  intro key' buffer' hget
  rw [Table.get?_insert] at hget
  split at hget
  · next hkey =>
    cases hget
    rw [hkey]
    exact hbuffer
  · exact hfilling key' buffer' hget

theorem Filling.erase (hfilling : h.Filling) (key : Nat) :
    Filling { h with unfinished := h.unfinished.erase key } := by
  intro key' buffer' hget
  rw [Table.get?_erase] at hget
  split at hget
  · cases hget
  · exact hfilling key' buffer' hget

theorem filling_of_empty (hempty : h.unfinished = .empty) : h.Filling := by
  intro key buffer hget
  rw [hempty] at hget
  cases hget

end Holdings

namespace Session

variable {s s' : Session} {b : Block} {piece : Option AssembledPiece}

theorem filling_bufferFor (hfilling : s.holdings.Filling) (index : UInt32) (owner : Identifier) :
    (s.bufferFor ⟨index⟩ owner).assembler.Filling index.toNat
      (s.geometry.lengthOf ⟨index⟩).toNat := by
  unfold bufferFor
  split
  · next buffer hbuffer =>
    have hbefore := hfilling _ buffer hbuffer
    rw [UInt32.ofNat_toNat] at hbefore
    exact hbefore
  · exact Assembler.filling_make _ _ _

theorem Merge.filling (h : Merge s b (piece, s')) (hfilling : s.holdings.Filling) :
    s'.holdings.Filling := by
  cases h with
  | dropped s' houtline => exact holdings_of_outline houtline ▸ hfilling
  | refused p owner s' hpiece _ _ _ houtline =>
      cases Geometry.piece?_eq_some hpiece
      rw [holdings_of_outline houtline]
      exact hfilling.insert (filling_bufferFor hfilling _ owner)
  | filled p owner buffer s' hpiece _ _ hadded _ houtline =>
      cases Geometry.piece?_eq_some hpiece
      rw [holdings_of_outline houtline]
      exact hfilling.insert
        ((filling_bufferFor hfilling _ owner).add (PieceBuffer.add?_eq_some hadded))
  | completed _ _ _ _ _ s' _ _ _ _ _ houtline =>
      rw [holdings_of_outline houtline]
      exact hfilling.erase b.piece

/-- What a block completes is a whole piece that we did not have, and its owner was asked for it. -/
theorem Merge.completes {p : AssembledPiece} (h : Merge s b (some p, s'))
    (hfilling : s.holdings.Filling) : s.geometry.Fits p ∧ s.owned.contains p.piece = false
      ∧ ∃ owner, s.owners.get? p.piece = some owner := by
  cases h with
  | completed index owner buffer _ s' hpiece hmissing howner hadded _ hcomplete houtline =>
      cases Geometry.piece?_eq_some hpiece
      have hbefore := filling_bufferFor hfilling (UInt32.ofNat b.piece) owner
      have hadded' := PieceBuffer.add?_eq_some hadded
      obtain ⟨hpiece', hlength, hwhole⟩ :=
        (hbefore.add hadded').complete (Assembler.complete?_of_complete hcomplete)
      -- The block is of the piece that its number says, so that number is a word.
      have hnumber : b.piece = (UInt32.ofNat b.piece).toNat :=
        (Assembler.piece_of_add hadded').trans hbefore.piece_eq
      have hsame : p.piece = b.piece := hpiece'.trans hnumber.symm
      rw [← hsame] at hmissing howner hlength hnumber
      exact ⟨⟨hwhole, hlength, hnumber ▸ UInt32.toNat_lt _⟩, hmissing, owner, howner⟩

end Session

end TorrentCore
