import TorrentCore.Proofs.Session.Assembling
import TorrentCore.Proofs.Session.Soliciting
import TorrentCore.Proofs.Storage

/-!
# Nothing gets in unasked

Peers may send any block at any time. A block counts only if its piece has an owner, so a piece is
completed, stored and marked only if it may be fetched and a requester reserved it after its peer
had told of it. A piece that is stored is written to its own place, so whatever peers send, the
bytes at the places of all other pieces are the ones that were there at first.
-/

namespace TorrentCore

def Geometry.Covers (g : Geometry) (index position : Nat) : Prop :=
  (g.offsetOf ⟨UInt32.ofNat index⟩).toNat ≤ position
    ∧ position < (g.offsetOf ⟨UInt32.ofNat index⟩).toNat + (g.lengthOf ⟨UInt32.ofNat index⟩).toNat

namespace Session

variable {start s s' : Session} {past : List (Nanoseconds × Event)} {now : Nanoseconds}
  {event : Event} {h : Holdings}

/-- What is new was asked for. -/
structure Guarded (start : Session) (past : List (Nanoseconds × Event)) (h : Holdings) : Prop where
  filling : h.Filling
  verifying : ∀ piece, h.verifying = some piece →
    h.geometry.Fits piece ∧ Sought start past piece.piece
  owned : ∀ index, h.owned.contains index = true →
    start.owned.contains index = true ∨ Sought start past index
  length_eq : h.storage.bytes.length = start.storage.bytes.length
  bytes_eq : ∀ position, (∀ index, Sought start past index → ¬ h.geometry.Covers index position) →
    h.storage.bytes[position]? = start.storage.bytes[position]?

theorem Guarded.later (hguarded : Guarded start past h) (more : List (Nanoseconds × Event)) :
    Guarded start (past ++ more) h where
  filling := hguarded.filling
  verifying piece hpiece := by
    obtain ⟨hfits, hsought⟩ := hguarded.verifying piece hpiece
    exact ⟨hfits, hsought.later more⟩
  owned index hindex := (hguarded.owned index hindex).imp_right fun hsought => hsought.later more
  length_eq := hguarded.length_eq
  bytes_eq position houtside := hguarded.bytes_eq position fun index hsought =>
    houtside index (hsought.later more)

/-! ### Storing and marking -/

theorem Guarded.finish (hguarded : Guarded start past h) :
    Guarded start past { h with verifying := none } :=
  ⟨hguarded.filling, nofun, hguarded.owned, hguarded.length_eq, hguarded.bytes_eq⟩

theorem Guarded.store (hguarded : Guarded start past h) {piece : AssembledPiece} {storage : Storage}
    (hverifying : h.verifying = some piece)
    (hwrite : h.storage.writePiece (h.geometry.offsetOf ⟨UInt32.ofNat piece.piece⟩).toNat piece
      = .ok storage) :
    Guarded start past { h with verifying := none, storage := storage } := by
  obtain ⟨hfits, hsought⟩ := hguarded.verifying piece hverifying
  obtain ⟨_, hroom, rfl⟩ := (Storage.writePiece_eq_ok_iff hfits.whole).mp hwrite
  have hlength : piece.bytes.length = (h.geometry.lengthOf ⟨UInt32.ofNat piece.piece⟩).toNat :=
    hfits.whole.trans hfits.length_eq
  rw [hfits.length_eq, ← hlength] at hroom
  refine ⟨hguarded.filling, nofun, hguarded.owned,
    (Bytes.length_overwrite hroom).trans hguarded.length_eq, fun position houtside => ?_⟩
  have hplace := houtside piece.piece hsought
  refine (Bytes.getElem?_overwrite hroom ?_).trans (hguarded.bytes_eq position houtside)
  simp only [Geometry.Covers, ← hlength] at hplace
  omega

theorem Guarded.mark (hguarded : Guarded start past h) (hwell : h.owned.WellFormed) {index : Nat}
    (hindex : index < h.owned.pieceCount) (hsought : Sought start past index) :
    Guarded start past { h with owned := h.owned.insert index } := by
  refine ⟨hguarded.filling, hguarded.verifying, fun index' hindex' => ?_, hguarded.length_eq,
    hguarded.bytes_eq⟩
  have hinserted : (h.owned.insert index).contains index' = true := hindex'
  rw [Bitfield.contains_insert hwell hindex, Bool.or_eq_true, decide_eq_true_eq] at hinserted
  rcases hinserted with hold | rfl
  · exact hguarded.owned index' hold
  · exact Or.inr hsought

/-! ### Steps -/

theorem guarded_consume (hguarded : Guarded start past s.holdings)
    (hprompted : Prompted start past s) (h : s.consume? = some s') :
    Guarded start past s'.holdings := by
  obtain ⟨block, piece, next, before, hbefore, howners, _, hmerge, hafter⟩ := consume_cases h
  obtain ⟨unfinished, hnext⟩ := hmerge.outline_eq
  have hholdings : before.holdings = s.holdings := holdings_of_outline hbefore
  have hnext' : next.holdings = { s.holdings with unfinished := unfinished } := by
    rw [← hholdings]
    exact holdings_of_outline hnext
  have hfilling := hmerge.filling (hholdings ▸ hguarded.filling)
  rw [holdings_of_outline hafter]
  rw [hnext'] at hfilling ⊢
  refine ⟨hfilling, fun p hp => ?_, hguarded.owned, hguarded.length_eq, hguarded.bytes_eq⟩
  cases hp
  obtain ⟨hfits, _, owner, howner⟩ := hmerge.completes (hholdings ▸ hguarded.filling)
  rw [howners] at howner
  rw [show before.geometry = s.geometry from congrArg Holdings.geometry hholdings] at hfits
  exact ⟨hfits, hprompted.owner p.piece owner howner⟩

theorem guarded_finishPiece (hguarded : Guarded start past s.holdings) (hfits : s.Fits)
    (h : s.finishPiece? = some s') : Guarded start past s'.holdings := by
  obtain ⟨piece, hverifying, hfinishing⟩ := finishPiece_cases h
  cases hfinishing with
  | notStored houtline =>
      rw [holdings_of_outline houtline]
      exact hguarded.finish
  | stored storage hverdict houtline =>
      obtain ⟨_, _, _, hwrite⟩ := verdict_eq_stored hverdict
      rw [holdings_of_outline houtline]
      exact hguarded.store hverifying hwrite
  | marked storage hverdict hindex houtline =>
      obtain ⟨_, _, _, hwrite⟩ := verdict_eq_stored hverdict
      rw [holdings_of_outline houtline]
      exact (hguarded.store hverifying hwrite).mark hfits.wellFormed hindex
        (hguarded.verifying piece hverifying).2

theorem guarded_happen (hguarded : Guarded start past s.holdings)
    (hprompted : Prompted start past s)
    (hfits : s.Fits) (h : s.happen? now event = some s') : Guarded start past s'.holdings := by
  cases happen_cases h with
  | quiet s' houtline =>
      rw [holdings_of_outline houtline]
      exact hguarded
  | connection number e e' he hrecorded => exact hguarded
  | joined number m s' hfresh hbegins hmembers hhub hholdings =>
      rw [hholdings]
      exact hguarded
  | consumed s' hconsume => exact guarded_consume hguarded hprompted hconsume
  | finished s' hfinish => exact guarded_finishPiece hguarded hfits hfinish
  | shutdown =>
      rw [holdings_of_outline (outline_shutdown s)]
      exact ⟨Holdings.filling_of_empty rfl, hguarded.verifying, hguarded.owned, hguarded.length_eq,
        hguarded.bytes_eq⟩

/-! ### Runs -/

variable {ownId : Identifier} {t : TorrentSource} {connectionOptions : ConnectionOptions}
  {policy : ReservationPolicy}

theorem guarded_run (hstart : Starts ownId t connectionOptions policy start)
    (hrun : run? past start = some s) : Guarded start past s.holdings := by
  refine run_history (Q := fun past s => Guarded start past s.holdings) ?_ ?_ hrun
  · obtain ⟨made, owned, hmake, rfl⟩ := hstart.exists_make
    have hmade := made_of_make hmake
    refine ⟨Holdings.filling_of_empty hmade.unfinished_eq, fun piece hpiece => ?_,
      fun index hindex => Or.inl hindex, rfl, fun _ _ => rfl⟩
    rw [show Holdings.verifying _ = none from hmade.verifying_eq] at hpiece
    cases hpiece
  · intro past now s event s' hpast hguarded hstep
    have hfits := (takeNotes_invariant accounted_happen (accounted_of_starts hstart) hpast).fits
    exact (guarded_happen hguarded (prompted_run hstart hpast) hfits hstep).later _

/-- Whatever peers send to a session, in every state that it can reach: a piece that it owns and did
not own at the start may be fetched, and a requester reserved it after its peer had told of it. And
the storage holds what it held at first, but for the places of such pieces. -/
theorem gained_isSought {events : List (Nanoseconds × Event)}
    (hstart : Starts ownId t connectionOptions policy start) (hrun : run? events start = some s) :
    Geometry.make t.geometry.totalLength t.geometry.pieceLength t.options.blockLength
        = .ok s.geometry
      ∧ (∀ index, s.owned.contains index = true → start.owned.contains index = false →
        t.options.Allows index ∧ Solicited start events index)
      ∧ s.storage.bytes.length = t.storage.bytes.length
      ∧ ∀ position, (∀ index, t.options.Allows index → Solicited start events index →
        ¬ s.geometry.Covers index position) →
        s.storage.bytes[position]? = t.storage.bytes[position]? := by
  have hguarded := guarded_run hstart hrun
  have hgeometry := (constant_run hrun).1
  obtain ⟨made, owned, hmake, rfl⟩ := hstart.exists_make
  have hmade := made_of_make hmake
  have hoptions : made.options = t.options := hmade.options_eq
  refine ⟨?_, fun index hindex hnew => ?_, ?_, fun position houtside => ?_⟩
  · rw [hgeometry]
    exact hmade.geometry_eq
  · rcases hguarded.owned index hindex with hold | hsought
    · rw [hnew] at hold
      cases hold
    · exact ⟨hoptions ▸ hsought.allowed, hsought.solicited⟩
  · rw [← hmade.storage_eq]
    exact hguarded.length_eq
  · rw [← hmade.storage_eq]
    exact hguarded.bytes_eq position fun index hsought =>
      houtside index (hoptions ▸ hsought.allowed) hsought.solicited

/-- Nothing is there yet, and only the first piece may be fetched. -/
def firstOnly : TorrentSource :=
  { twoPieces with
    storage := ⟨[0, 0, 0]⟩
    initial := .nothing
    options := { twoPieces.options with allowed := some [true, false] } }

/-- A peer sends the second piece, for which it was not asked, and then the first one. -/
def pushes : List (Nanoseconds × Event) :=
  let request : Event := .own (.request 0 [])
  let receive : Event := .own (.receive 0)
  ([joins 0 [.bitfield [0xc0], .unchoke, .piece 1 0 [12], .piece 0 0 [10], .piece 0 1 [11]],
    request, request, request, receive, receive, receive, receive, receive, receive, .own .consume,
    request, request, request, request, receive, receive, .own .consume, receive, receive,
    .own .consume, .own .finishPiece] : List Event).map fun event => (0, event)

theorem gained_isSought_pushes : ∃ start s, Starts .zero firstOnly {} {} start
    ∧ run? pushes start = some s ∧ start.owned.contains 0 = false ∧ s.owned.contains 0 = true
    ∧ firstOnly.options.Allows 0 ∧ Solicited start pushes 0
    ∧ ¬ s.geometry.Covers 0 2 ∧ s.storage.bytes[2]? = some 0 := by
  have hdone : (start? .zero firstOnly {} {}).any (fun start => !start.owned.contains 0
      && (run? pushes start).any fun s => s.owned.contains 0) = true := by decide +kernel
  obtain ⟨start, hstart, hdone⟩ := (Option.any_eq_true _ _).mp hdone
  rw [Bool.and_eq_true, Bool.not_eq_true'] at hdone
  obtain ⟨s, hrun, howned⟩ := (Option.any_eq_true _ _).mp hdone.2
  obtain ⟨hgeometry, hgained, _, hkept⟩ := gained_isSought (starts_of_start? hstart) hrun
  obtain ⟨hallowed, hsolicited⟩ := hgained 0 howned hdone.1
  have hplaces : s.geometry = firstOnly.geometry := Except.ok.inj (hgeometry.symm.trans rfl)
  have hbehind : ¬ s.geometry.Covers 0 2 := by
    rw [hplaces, Geometry.Covers]
    decide
  refine ⟨start, s, starts_of_start? hstart, hrun, hdone.1, howned, hallowed, hsolicited,
    hbehind, ?_⟩
  -- No other piece may be fetched.
  refine hkept 2 fun index hindex _ => ?_
  have honly := hindex [true, false] rfl
  match index with
  | 0 => exact hbehind
  | 1 => cases honly
  | _ + 2 => cases honly

end Session

end TorrentCore
