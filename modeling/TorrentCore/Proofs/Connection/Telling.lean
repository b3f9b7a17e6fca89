import TorrentCore.Proofs.Connection.Record
import TorrentCore.Proofs.Connection.Streams

/-!
# What a peer tells

The record of a peer's pieces grows only by what the peer has told: a piece that a step of the
reader has added to it stands in the message that the reader took with that step.
-/

namespace TorrentCore

/-- Whether a message tells that its sender has a piece. -/
def Message.tellsOf (m : Message) (index : Nat) : Bool :=
  match m with
  | .has index' => index'.toNat == index
  | .bitfield bits => bitSet (bits.getD (index / 8) 0) index
  | _ => false

namespace Endpoint

variable {e e' : Endpoint} {now : Nanoseconds} {index : Nat}

theorem Recorded.wellFormed (h : e.Recorded e') (hwell : e.connection.pieces.WellFormed) :
    e'.connection.pieces.WellFormed
      ∧ e'.connection.pieces.pieceCount = e.connection.pieces.pieceCount := by
  cases h with
  | nothing _ hsame =>
      rw [hsame.pieces_eq]
      exact ⟨hwell, rfl⟩
  | oneMore index _ _ _ _ _ hpieces =>
      rw [hpieces]
      exact ⟨hwell.insert index, rfl⟩
  | another _ _ _ _ hpieces => exact Bitfield.wellFormed_overwrite hpieces
  | ended _ _ _ hpieces =>
      rw [hpieces]
      exact ⟨hwell, rfl⟩

theorem contains_applyHave {told : Nat} (hwell : e.connection.pieces.WellFormed)
    (h : (e.applyHave told).connection.pieces.contains index = true) :
    e.connection.pieces.contains index = true ∨ index = told := by
  unfold applyHave at h
  have hinserted : ∀ new pieces, e.connection.pieces.mark told = .ok (new, pieces) →
      pieces.contains index = true → e.connection.pieces.contains index = true ∨ index = told := by
    intro new pieces hmark hcontains
    obtain ⟨hindex, _, rfl⟩ := Bitfield.mark_eq_ok_iff.mp hmark
    rw [Bitfield.contains_insert hwell hindex, Bool.or_eq_true, decide_eq_true_eq] at hcontains
    exact hcontains
  split at h
  · next hmark => exact hinserted _ _ hmark h
  · next hmark => exact hinserted _ _ hmark h
  · exact Or.inl h

theorem contains_apply {m : Message} (happly : e.apply now m = .ok e')
    (hwell : e.connection.pieces.WellFormed) (h : e'.connection.pieces.contains index = true) :
    e.connection.pieces.contains index = true ∨ m.tellsOf index = true := by
  have hflagged : ∀ c, e.connection.Flagged c → c.pieces.contains index = true →
      e.connection.pieces.contains index = true := fun c hc hcontains =>
    hc.sameRecord.pieces_eq ▸ hcontains
  cases m with
  | has told =>
      cases happly
      rcases contains_applyHave hwell h with hbefore | rfl
      · exact Or.inl hbefore
      · exact Or.inr (beq_self_eq_true _)
  | bitfield bits =>
      rw [apply, applyBitfield] at happly
      split at happly
      · next pieces htaken =>
        cases happly
        have hcontains : pieces.contains index = true := h
        rw [Bitfield.contains_overwrite htaken, Bool.and_eq_true] at hcontains
        exact Or.inr hcontains.2
      · cases happly
  | choke | unchoke =>
      cases happly
      exact Or.inl (hflagged _ (Connection.flagged_setAmChoked _ _ _) h)
  | interested | notInterested =>
      cases happly
      exact Or.inl (hflagged _ (Connection.flagged_setPeerInterested _ _ _) h)
  | keepAlive | request r | cancel r | piece _ _ _ =>
      cases happly
      exact Or.inl h

theorem contains_receive (hstep : e.receive? now = some e') (hwell : e.connection.pieces.WellFormed)
    (h : e'.connection.pieces.contains index = true) :
    e.connection.pieces.contains index = true
      ∨ ∃ m, e.dispatches? = some m ∧ m.tellsOf index = true := by
  unfold receive? at hstep
  simp only at hstep
  split at hstep
  · cases hstep
  next hrunning =>
  rw [Bool.not_eq_true', Bool.not_eq_false] at hrunning
  rw [dispatches?, if_pos hrunning]
  cases hphase : e.connection.reader with
  | decoding =>
      rw [hphase] at hstep
      simp only at hstep ⊢
      split at hstep
      · next m rest hfront =>
        rw [hfront]
        split at hstep
        · next happly =>
          cases hstep
          rcases contains_apply happly hwell h with hbefore | htold
          · exact Or.inl hbefore
          · exact Or.inr ⟨m, rfl, htold⟩
        · cases hstep
          exact Or.inl h
      · cases hstep
        exact Or.inl h
      · cases hstep
        exact Or.inl h
  | reading _ | offeringBlock _ | offeringUpload _ =>
      -- Nothing is taken out of the buffer.
      rw [hphase] at hstep
      simp only at hstep
      refine Or.inl ?_
      repeat' split at hstep
      all_goals cases hstep
      all_goals exact h

end Endpoint

end TorrentCore
