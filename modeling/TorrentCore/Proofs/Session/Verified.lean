import TorrentCore.Proofs.Session.Assembling
import TorrentCore.Proofs.Storage

/-!
# What is owned is verified

A piece that is owned stands in storage with the expected digest, and nothing writes there again.
The invariant is `Sound`: besides that, what is being assembled fits its piece, and the piece that
is being verified is whole and not owned yet. So when it is stored it goes to its own place, which
has nothing in common with the places of the pieces that are owned.
-/

namespace TorrentCore

namespace Holdings

def stored (h : Holdings) (index : Nat) : Except StorageError Bytes :=
  h.storage.read (h.geometry.offsetOf ⟨UInt32.ofNat index⟩).toNat
    (h.geometry.lengthOf ⟨UInt32.ofNat index⟩).toNat

/-- The bytes of a piece are in storage, and their digest is the expected one. -/
def Verified (h : Holdings) (index : Nat) : Prop :=
  ∃ bytes expected, h.stored index = .ok bytes ∧ h.hashes.get? ⟨UInt32.ofNat index⟩ = some expected
    ∧ Sha1.digest bytes = expected.bytes

/-- The holdings of a session whose torrent was added properly. -/
structure Sound (h : Holdings) : Prop where
  geometry : h.geometry.Sound
  wellFormed : h.owned.WellFormed
  pieceCount : h.owned.pieceCount = h.geometry.pieceCount.toNat
  verified : ∀ index, h.owned.contains index = true → h.Verified index
  verifying : ∀ piece, h.verifying = some piece → piece.Whole
    ∧ piece.length = (h.geometry.lengthOf ⟨UInt32.ofNat piece.piece⟩).toNat
    ∧ piece.piece < 4294967296 ∧ h.owned.contains piece.piece = false
  unfinished : ∀ key buffer, h.unfinished.get? key = some buffer →
    buffer.assembler.Filling (UInt32.ofNat key).toNat
      (h.geometry.lengthOf ⟨UInt32.ofNat key⟩).toNat

/-- What is owned stays owned, and its bytes stay as they are. -/
structure Extends (h h' : Holdings) : Prop where
  geometry_eq : h'.geometry = h.geometry
  hashes_eq : h'.hashes = h.hashes
  options_eq : h'.options = h.options
  owned : ∀ index, h.owned.contains index = true →
    h'.owned.contains index = true ∧ h'.stored index = h.stored index

theorem Extends.refl (h : Holdings) : h.Extends h := ⟨rfl, rfl, rfl, fun _ hi => ⟨hi, rfl⟩⟩

theorem Extends.trans {h h' h'' : Holdings} (hfirst : h.Extends h') (hthen : h'.Extends h'') :
    h.Extends h'' where
  geometry_eq := hthen.geometry_eq.trans hfirst.geometry_eq
  hashes_eq := hthen.hashes_eq.trans hfirst.hashes_eq
  options_eq := hthen.options_eq.trans hfirst.options_eq
  owned index hindex := by
    obtain ⟨howned, hsame⟩ := hfirst.owned index hindex
    obtain ⟨howned', hsame'⟩ := hthen.owned index howned
    exact ⟨howned', hsame'.trans hsame⟩

/-! ### Storing -/

/-- A piece that is stored leaves the bytes of the pieces that are owned alone. -/
theorem Sound.stored_eq {h : Holdings} (hsound : h.Sound) {piece : AssembledPiece}
    (hverifying : h.verifying = some piece) {storage : Storage}
    (hwrite : h.storage.writePiece (h.geometry.offsetOf ⟨UInt32.ofNat piece.piece⟩).toNat piece
      = .ok storage) {index : Nat} (howned : h.owned.contains index = true) :
    stored { h with storage := storage } index = h.stored index := by
  obtain ⟨hwhole, hlength, hword, hmissing⟩ := hsound.verifying piece hverifying
  obtain ⟨bytes, _, hread, _, _⟩ := hsound.verified index howned
  have hindex : index < 4294967296 := by
    have hlt := Bitfield.lt_of_contains howned
    rw [hsound.pieceCount] at hlt
    exact Nat.lt_trans hlt h.geometry.pieceCount.toNat_lt
  have hne : (⟨UInt32.ofNat index⟩ : PieceIndex) ≠ ⟨UInt32.ofNat piece.piece⟩ := by
    intro he
    have hvalue := congrArg (fun p => p.val.toNat) he
    simp only [UInt32.toNat_ofNat'] at hvalue
    rw [Nat.mod_eq_of_lt hindex, Nat.mod_eq_of_lt hword] at hvalue
    rw [hvalue, hmissing] at howned
    cases howned
  have hdisjoint := hsound.geometry.disjoint hne
  rw [← hlength] at hdisjoint
  rw [hread]
  exact Storage.read_writePiece_of_disjoint hwhole hwrite hdisjoint hread

theorem Sound.store {h : Holdings} (hsound : h.Sound) {piece : AssembledPiece}
    (hverifying : h.verifying = some piece) {storage : Storage}
    (hwrite : h.storage.writePiece (h.geometry.offsetOf ⟨UInt32.ofNat piece.piece⟩).toNat piece
      = .ok storage) :
    Sound { h with verifying := none, storage := storage }
      ∧ h.Extends { h with verifying := none, storage := storage } := by
  have hsame : ∀ index, h.owned.contains index = true →
      stored { h with verifying := none, storage := storage } index = h.stored index :=
    fun index howned => hsound.stored_eq hverifying hwrite howned
  refine ⟨⟨hsound.geometry, hsound.wellFormed, hsound.pieceCount, ?_, fun piece hp => ?_,
    hsound.unfinished⟩, ⟨rfl, rfl, rfl, fun index howned => ⟨howned, hsame index howned⟩⟩⟩
  · intro index howned
    obtain ⟨bytes, expected, hread, hexpected, hdigest⟩ := hsound.verified index howned
    exact ⟨bytes, expected, (hsame index howned).trans hread, hexpected, hdigest⟩
  · cases hp

theorem Sound.mark {h : Holdings} (hsound : h.Sound) (hidle : h.verifying = none) {index : Nat}
    (hindex : index < h.owned.pieceCount) (hverified : h.Verified index) :
    Sound { h with owned := h.owned.insert index }
      ∧ h.Extends { h with owned := h.owned.insert index } := by
  have hcontains := Bitfield.contains_insert hsound.wellFormed hindex
  refine ⟨⟨hsound.geometry, hsound.wellFormed.insert index, hsound.pieceCount, ?_, fun piece hp => ?_,
    hsound.unfinished⟩, ⟨rfl, rfl, rfl, fun index' howned => ⟨?_, rfl⟩⟩⟩
  · intro index' howned
    rw [hcontains, Bool.or_eq_true, decide_eq_true_eq] at howned
    rcases howned with howned | rfl
    · exact hsound.verified index' howned
    · exact hverified
  · rw [show h.verifying = some piece from hp] at hidle
    cases hidle
  · show (h.owned.insert index).contains index' = true
    rw [hcontains, howned, Bool.true_or]

end Holdings

namespace Session

open Holdings

/-! ### Steps -/

/-- Whatever comes of a block, only slots and the piece to be verified change. -/
theorem sound_merge {s s' : Session} {b : Block} {piece : Option AssembledPiece}
    (hsound : s.holdings.Sound) (hmerge : Merge s b (piece, s')) :
    Sound { s'.holdings with verifying := piece }
      ∧ s.holdings.Extends { s'.holdings with verifying := piece } := by
  obtain ⟨unfinished, houtline⟩ := hmerge.outline_eq
  have hfilling := hmerge.filling hsound.unfinished
  have hholdings : s'.holdings = { s.holdings with unfinished := unfinished } :=
    holdings_of_outline houtline
  rw [hholdings] at hfilling ⊢
  refine ⟨⟨hsound.geometry, hsound.wellFormed, hsound.pieceCount, hsound.verified, fun p hp => ?_,
    hfilling⟩, ⟨rfl, rfl, rfl, fun _ howned => ⟨howned, rfl⟩⟩⟩
  cases hp
  obtain ⟨hfits, hmissing, _⟩ := hmerge.completes hsound.unfinished
  exact ⟨hfits.whole, hfits.length_eq, hfits.isWord, hmissing⟩

theorem sound_consume {s s' : Session} (hsound : s.holdings.Sound) (h : s.consume? = some s') :
    s'.holdings.Sound ∧ s.holdings.Extends s'.holdings := by
  obtain ⟨block, piece, next, before, hbefore, _, _, hmerge, hafter⟩ := consume_cases h
  have hholdings : before.holdings = s.holdings := holdings_of_outline hbefore
  have hholdings' : s'.holdings = { next.holdings with verifying := piece } :=
    holdings_of_outline hafter
  rw [hholdings', ← hholdings]
  exact sound_merge (hholdings ▸ hsound) hmerge

theorem sound_finishPiece {s s' : Session} (hsound : s.holdings.Sound)
    (h : s.finishPiece? = some s') : s'.holdings.Sound ∧ s.holdings.Extends s'.holdings := by
  obtain ⟨piece, hverifying, hfinishing⟩ := finishPiece_cases h
  have hidle : Sound { s.holdings with verifying := none }
      ∧ s.holdings.Extends { s.holdings with verifying := none } :=
    ⟨⟨hsound.geometry, hsound.wellFormed, hsound.pieceCount, hsound.verified,
      fun piece hp => (by cases hp), hsound.unfinished⟩,
      ⟨rfl, rfl, rfl, fun _ howned => ⟨howned, rfl⟩⟩⟩
  cases hfinishing with
  | notStored houtline =>
      rw [holdings_of_outline houtline]
      exact hidle
  | stored storage hverdict houtline =>
      obtain ⟨expected, hexpected, hdigest, hwrite⟩ := verdict_eq_stored hverdict
      rw [holdings_of_outline houtline]
      exact hsound.store hverifying hwrite
  | marked storage hverdict hindex houtline =>
      obtain ⟨expected, hexpected, hdigest, hwrite⟩ := verdict_eq_stored hverdict
      obtain ⟨hstored, hextends⟩ := hsound.store hverifying hwrite
      obtain ⟨hwhole, hlength, _, _⟩ := hsound.verifying piece hverifying
      have hread := Storage.read_writePiece hwhole hwrite
      rw [hlength] at hread
      obtain ⟨hmarked, hextends'⟩ := hstored.mark rfl hindex
        ⟨piece.bytes, expected, hread, hexpected, hdigest⟩
      rw [holdings_of_outline houtline]
      exact ⟨hmarked, hextends.trans hextends'⟩

theorem sound_happen {now : Nanoseconds} {s s' : Session} {event : Event}
    (hsound : s.holdings.Sound) (h : s.happen? now event = some s') :
    s'.holdings.Sound ∧ s.holdings.Extends s'.holdings := by
  cases happen_cases h with
  | quiet s' houtline =>
      rw [holdings_of_outline houtline]
      exact ⟨hsound, .refl _⟩
  | connection number e e' he hrecorded => exact ⟨hsound, .refl _⟩
  | joined number m s' hfresh hbegins hmembers hhub hholdings =>
      rw [hholdings]
      exact ⟨hsound, .refl _⟩
  | consumed s' hconsume => exact sound_consume hsound hconsume
  | finished s' hfinish => exact sound_finishPiece hsound hfinish
  | shutdown =>
      rw [holdings_of_outline (outline_shutdown s)]
      exact ⟨⟨hsound.geometry, hsound.wellFormed, hsound.pieceCount, hsound.verified,
        hsound.verifying, filling_of_empty rfl⟩, ⟨rfl, rfl, rfl, fun _ howned => ⟨howned, rfl⟩⟩⟩

theorem sound_run {s s' : Session} {events : List (Nanoseconds × Event)}
    (hsound : s.holdings.Sound) (hrun : run? events s = some s') :
    s'.holdings.Sound ∧ s.holdings.Extends s'.holdings := by
  refine run_invariant (P := fun r => r.holdings.Sound ∧ s.holdings.Extends r.holdings) ?_
    ⟨hsound, .refl _⟩ hrun
  rintro now r event r' ⟨hsound', hextends⟩ hstep
  obtain ⟨hsound'', hextends'⟩ := sound_happen hsound' hstep
  exact ⟨hsound'', hextends.trans hextends'⟩

/-! ### The start -/

theorem sound_of_made {t : TorrentSource} {s : Session} (h : s.Made t)
    (hinitial : ∀ bytes, t.initial ≠ .restored bytes) : s.holdings.Sound := by
  have howned : s.holdings.owned = .empty s.pieceCount := h.owned_eq hinitial
  refine ⟨Geometry.sound_of_make h.geometry_eq, ?_, ?_, ?_, ?_, ?_⟩
  · rw [howned]
    exact Bitfield.wellFormed_empty _
  · rw [howned]
    rfl
  · intro index hindex
    rw [howned, Bitfield.contains_empty] at hindex
    cases hindex
  · intro piece hpiece
    rw [show s.holdings.verifying = none from h.verifying_eq] at hpiece
    cases hpiece
  · intro key buffer hget
    rw [show s.holdings.unfinished = .empty from h.unfinished_eq] at hget
    cases hget

/-- What is known of a session from its start on. -/
structure Admitted (t : TorrentSource) (h : Holdings) : Prop where
  geometry_eq : Geometry.make t.geometry.totalLength t.geometry.pieceLength t.options.blockLength
    = .ok h.geometry
  hashes_eq : h.hashes = t.hashes
  options_eq : h.options = t.options
  length_allowed : ∀ allowed, t.options.allowed = some allowed →
    allowed.length = h.geometry.pieceCount.toNat

theorem Admitted.of_extends {t : TorrentSource} {h h' : Holdings} (hadmitted : Admitted t h)
    (hextends : h.Extends h') : Admitted t h' := by
  obtain ⟨hgeometry, hhashes, hoptions, _⟩ := hextends
  refine ⟨?_, ?_, ?_, ?_⟩
  · rw [hgeometry]
    exact hadmitted.geometry_eq
  · rw [hhashes]
    exact hadmitted.hashes_eq
  · rw [hoptions]
    exact hadmitted.options_eq
  · rw [hgeometry]
    exact hadmitted.length_allowed

theorem Made.admitted {t : TorrentSource} {s : Session} (h : s.Made t) : Admitted t s.holdings :=
  ⟨h.geometry_eq, h.hashes_eq, h.options_eq, h.length_allowed⟩

theorem sound_of_starts {ownId : Identifier} {t : TorrentSource}
    {connectionOptions : ConnectionOptions} {policy : ReservationPolicy} {s : Session}
    (h : Starts ownId t connectionOptions policy s)
    (hinitial : ∀ bytes, t.initial ≠ .restored bytes) :
    s.holdings.Sound ∧ Admitted t s.holdings := by
  cases h with
  | unchecked _ hmake =>
      have hmade := made_of_make hmake
      exact ⟨sound_of_made hmade hinitial, hmade.admitted⟩
  | @checked s _ hmake =>
      have hmade := made_of_make hmake
      have hsound := sound_of_made hmade hinitial
      obtain ⟨owned, howned, hchecked⟩ := checkExisting_induction (s := s)
        (P := fun owned => Sound { s.holdings with owned := owned }) hsound (by
          intro owned index bytes howned hindex hread hdigest
          obtain ⟨expected, hexpected, hbytes⟩ := Option.map_eq_some_iff.mp hdigest
          have hcount : index < owned.pieceCount := by
            rw [show owned.pieceCount = _ from howned.pieceCount]
            exact hindex
          exact (howned.mark hmade.verifying_eq hcount
            ⟨bytes, expected, hread, hexpected, hbytes.symm⟩).1)
      rw [hchecked]
      exact ⟨howned, hmade.geometry_eq, hmade.hashes_eq, hmade.options_eq, hmade.length_allowed⟩

theorem contains_of_isFinished {t : TorrentSource} {s : Session} (hsound : s.holdings.Sound)
    (hadmitted : Admitted t s.holdings) (h : s.isFinished = true) {index : Nat}
    (hindex : index < s.pieceCount)
    (hwanted : ∀ allowed, t.options.allowed = some allowed → allowed.getD index false = true) :
    s.owned.contains index = true := by
  have hoptions : s.options = t.options := hadmitted.options_eq
  unfold isFinished at h
  rw [hoptions] at h
  split at h
  · next allowed hallowed =>
    have hmem : index ∈ List.range allowed.length := by
      rw [List.mem_range, hadmitted.length_allowed allowed hallowed]
      exact hindex
    have hall := List.all_eq_true.mp h index hmem
    rw [hwanted allowed hallowed] at hall
    exact hall
  · refine (Bitfield.hasAll_iff hsound.wellFormed).mp h index ?_
    rw [show s.holdings.owned.pieceCount = _ from hsound.pieceCount]
    exact hindex

/-! ### Runs -/

/-- Whatever happens to a session that started with nothing or with what was checked: the pieces it
owns are in storage with the digests of the torrent, they stay owned with the same bytes, and once
it is finished these are all the pieces that are wanted. -/
theorem owned_isVerified {ownId : Identifier} {t : TorrentSource}
    {connectionOptions : ConnectionOptions} {policy : ReservationPolicy} {start s s' : Session}
    {events later : List (Nanoseconds × Event)}
    (hinitial : ∀ bytes, t.initial ≠ .restored bytes)
    (hstart : Starts ownId t connectionOptions policy start) (hrun : run? events start = some s)
    (hlater : run? later s = some s') :
    Geometry.make t.geometry.totalLength t.geometry.pieceLength t.options.blockLength
        = .ok s.geometry
      ∧ s.hashes = t.hashes
      ∧ (∀ index, s.owned.contains index = true → s.holdings.Verified index)
      ∧ (∀ index, s.owned.contains index = true →
        s'.owned.contains index = true ∧ s'.holdings.stored index = s.holdings.stored index)
      ∧ (s.isFinished = true → ∀ index < s.pieceCount,
        (∀ allowed, t.options.allowed = some allowed → allowed.getD index false = true) →
        s.owned.contains index = true ∧ s.holdings.Verified index) := by
  obtain ⟨hsound₀, hadmitted₀⟩ := sound_of_starts hstart hinitial
  obtain ⟨hsound, hextends⟩ := sound_run hsound₀ hrun
  obtain ⟨_, hextends'⟩ := sound_run hsound hlater
  have hadmitted := hadmitted₀.of_extends hextends
  refine ⟨hadmitted.geometry_eq, hadmitted.hashes_eq, hsound.verified, hextends'.owned, ?_⟩
  intro hfinished index hindex hwanted
  have howned := contains_of_isFinished hsound hadmitted hfinished hindex hwanted
  exact ⟨howned, hsound.verified index howned⟩

/-- A peer that has both pieces sends the first one when it is asked for it. -/
def download : List (Nanoseconds × Event) :=
  let request : Event := .own (.request 0 [])
  let receive : Event := .own (.receive 0)
  ([joins 0 [.bitfield [0xc0], .unchoke, .piece 0 0 [10], .piece 0 1 [11]], request, request,
    request, request, receive, receive, receive, receive, request, request, request, request,
    receive, receive, .own .consume, receive, receive, .own .consume, .own .finishPiece] :
      List Event).map fun event => (0, event)

theorem owned_isVerified_download : ∃ start s, (∀ bytes, twoPieces.initial ≠ .restored bytes)
    ∧ Starts .zero twoPieces {} {} start ∧ run? download start = some s
    ∧ run? [(0, .shutdown)] s = some s.shutdown ∧ s.isFinished = true
    ∧ ∀ index < s.pieceCount, s.owned.contains index = true ∧ s.holdings.Verified index := by
  have hdone : (after? .zero twoPieces {} {} download).any isFinished = true := by decide +kernel
  obtain ⟨start, s, hstart, hrun, hfinished⟩ := exists_run_of_after? hdone
  have hinitial : ∀ bytes, twoPieces.initial ≠ .restored bytes := fun _ => nofun
  have hlater : run? [(0, .shutdown)] s = some s.shutdown := rfl
  exact ⟨start, s, hinitial, hstart, hrun, hlater, hfinished, fun index hindex =>
    (owned_isVerified hinitial hstart hrun hlater).2.2.2.2 hfinished index hindex
      fun allowed hallowed => (by cases hallowed)⟩

end Session

end TorrentCore
