import TorrentCore.Proofs.Session.Announcing
import TorrentCore.Proofs.Session.Verified
import TorrentCore.Swarm.Torrents

/-!
# Taking a torrent up again

What a session owns can be handed to a later one in two ways: as the bytes of its set, or by leaving
it to the later session to look through the storage. Looking through the storage finds just the
pieces that are verified. The pieces end one after the other, so a storage that is too short fails
at the first of them that it does not reach, and none after that one could have been found.
-/

namespace TorrentCore

namespace Session

open Holdings

variable {ownId : Identifier} {t t' : TorrentSource} {connectionOptions : ConnectionOptions}
  {policy : ReservationPolicy} {made s : Session}

/-! ### Looking through the storage -/

theorem stored_eq_ok_iff {h : Holdings} (hgeometry : h.geometry.Sound) {index : Nat}
    (hindex : index < h.geometry.pieceCount.toNat) :
    (∃ bytes, h.stored index = .ok bytes) ↔ h.geometry.stop index ≤ h.storage.bytes.length := by
  have hle := hgeometry.stop_le hindex
  have hlt := h.geometry.totalLength.toNat_lt
  rw [Geometry.stop] at hle ⊢
  constructor
  · rintro ⟨bytes, hread⟩
    exact (Storage.read_eq_ok_iff.mp hread).2.1
  · exact fun hfits => ⟨_, Storage.read_eq_ok_iff.mpr ⟨by omega, hfits, rfl⟩⟩

/-- How far looking through the storage has come, after so many pieces. -/
structure Looked (s : Session) (count : Nat) (owned : Bitfield) (result : Except StorageError Nat) :
    Prop where
  wellFormed : owned.WellFormed
  pieceCount_eq : owned.pieceCount = s.pieceCount
  contains_iff : ∀ index, owned.contains index = true ↔ index < count ∧ s.holdings.Verified index
  result_eq : (result = .ok owned.count
      ∧ ∀ index < count, s.geometry.stop index ≤ s.storage.bytes.length)
    ∨ ((∃ e, result = .error e) ∧ ∃ index < count, s.storage.bytes.length < s.geometry.stop index)

def look (s : Session) (acc : Except StorageError Nat × Bitfield) (index : Nat) :
    Except StorageError Nat × Bitfield :=
  match acc with
  | (.error e, owned) => (.error e, owned)
  | (.ok good, owned) => match s.holdings.stored index with
    | .error e => (.error e, owned)
    | .ok bytes =>
      if (s.hashes.get? ⟨UInt32.ofNat index⟩).map Identifier.bytes = some (Sha1.digest bytes) then
        (.ok (good + 1), owned.insert index)
      else (.ok good, owned)

def withFound (s : Session) (acc : Except StorageError Nat × Bitfield) :
    Except StorageError Nat × Session := (acc.1, { s with owned := acc.2 })

theorem checkExisting_eq_foldl (s : Session) :
    s.checkExisting = s.withFound ((List.range s.pieceCount).foldl s.look (.ok 0, s.owned)) := by
  rw [checkExisting,
    show ((.ok 0 : Except StorageError Nat), s) = s.withFound (.ok 0, s.owned) from rfl]
  refine List.foldl_hom s.withFound fun acc index => ?_
  obtain ⟨good, owned⟩ := acc
  cases good with
  | error e => rfl
  | ok good =>
      rw [look]
      simp only [withFound]
      show (match s.holdings.stored index with
        | .error e => _
        | .ok bytes => _) = _
      cases s.holdings.stored index with
      | error e => rfl
      | ok bytes =>
          dsimp only
          split
          · next hdigest => exact if_pos hdigest
          · next hdigest => exact if_neg hdigest

theorem Looked.pass {count : Nat} {owned : Bitfield} {result result' : Except StorageError Nat}
    (h : s.Looked count owned result) (hbad : ¬ s.holdings.Verified count)
    (hresult : (result' = .ok owned.count
        ∧ ∀ index < count + 1, s.geometry.stop index ≤ s.storage.bytes.length)
      ∨ ((∃ e, result' = .error e)
        ∧ ∃ index < count + 1, s.storage.bytes.length < s.geometry.stop index)) :
    s.Looked (count + 1) owned result' := by
  refine ⟨h.wellFormed, h.pieceCount_eq, fun index => ?_, hresult⟩
  rw [h.contains_iff]
  constructor
  · rintro ⟨hlt, hverified⟩
    exact ⟨Nat.lt_succ_of_lt hlt, hverified⟩
  · rintro ⟨hlt, hverified⟩
    rcases Nat.lt_or_eq_of_le (Nat.le_of_lt_succ hlt) with hlt | rfl
    · exact ⟨hlt, hverified⟩
    · exact absurd hverified hbad

theorem Looked.mark {count : Nat} {owned : Bitfield} (h : s.Looked count owned (.ok owned.count))
    (hcount : count < s.pieceCount) (hverified : s.holdings.Verified count)
    (hfits : ∀ index < count + 1, s.geometry.stop index ≤ s.storage.bytes.length) :
    s.Looked (count + 1) (owned.insert count) (.ok (owned.count + 1)) := by
  have hnew : owned.contains count = false := by
    rw [← Bool.not_eq_true, h.contains_iff]
    exact fun hbefore => Nat.lt_irrefl _ hbefore.1
  have hlt : count < owned.pieceCount := by
    rw [h.pieceCount_eq]
    exact hcount
  refine ⟨h.wellFormed.insert count, h.pieceCount_eq, fun index => ?_, Or.inl ⟨?_, hfits⟩⟩
  · rw [Bitfield.contains_insert h.wellFormed hlt, Bool.or_eq_true, decide_eq_true_eq,
      h.contains_iff]
    constructor
    · rintro (⟨hbefore, hthat⟩ | rfl)
      · exact ⟨Nat.lt_succ_of_lt hbefore, hthat⟩
      · exact ⟨Nat.lt_succ_self _, hverified⟩
    · rintro ⟨hindex, hthat⟩
      rcases Nat.lt_or_eq_of_le (Nat.le_of_lt_succ hindex) with hbefore | rfl
      · exact Or.inl ⟨hbefore, hthat⟩
      · exact Or.inr rfl
  · rw [Bitfield.count_insert h.wellFormed hlt, hnew]
    rfl

theorem Looked.stop {count : Nat} {owned : Bitfield} {result : Except StorageError Nat}
    (h : s.Looked count owned result) (hgeometry : s.geometry.Sound) (hcount : count < s.pieceCount)
    (hshort : s.storage.bytes.length < s.geometry.stop count) (e : StorageError) :
    s.Looked (count + 1) owned (.error e) := by
  refine h.pass ?_ (Or.inr ⟨⟨e, rfl⟩, count, Nat.lt_succ_self _, hshort⟩)
  rintro ⟨bytes, _, hbytes, _⟩
  exact Nat.not_le.mpr hshort
    ((stored_eq_ok_iff (h := s.holdings) hgeometry hcount).mp ⟨bytes, hbytes⟩)

theorem Looked.look {count : Nat} {owned : Bitfield} {result : Except StorageError Nat}
    (h : s.Looked count owned result) (hgeometry : s.geometry.Sound)
    (hcount : count < s.pieceCount) :
    ∃ owned' result', s.look (result, owned) count = (result', owned')
      ∧ s.Looked (count + 1) owned' result' := by
  have hreadable := stored_eq_ok_iff (h := s.holdings) hgeometry hcount
  rcases h.result_eq with ⟨rfl, hfits⟩ | ⟨⟨e, rfl⟩, index, hindex, hshort⟩
  · cases hstored : s.holdings.stored count with
    | error e =>
        have hshort : s.storage.bytes.length < s.geometry.stop count := by
          refine Nat.lt_of_not_le fun hle => ?_
          obtain ⟨bytes, hbytes⟩ := hreadable.mpr hle
          rw [hstored] at hbytes
          cases hbytes
        exact ⟨owned, .error e, by rw [Session.look, hstored], h.stop hgeometry hcount hshort e⟩
    | ok bytes =>
        have hfits' : ∀ index < count + 1, s.geometry.stop index ≤ s.storage.bytes.length := by
          intro index hindex
          rcases Nat.lt_or_eq_of_le (Nat.le_of_lt_succ hindex) with hlt | rfl
          · exact hfits index hlt
          · exact hreadable.mp ⟨bytes, hstored⟩
        by_cases hdigest : (s.hashes.get? ⟨UInt32.ofNat count⟩).map Identifier.bytes
            = some (Sha1.digest bytes)
        · obtain ⟨expected, hexpected, hsame⟩ := Option.map_eq_some_iff.mp hdigest
          refine ⟨owned.insert count, .ok (owned.count + 1), ?_,
            h.mark hcount ⟨bytes, expected, hstored, hexpected, hsame.symm⟩ hfits'⟩
          rw [Session.look, hstored]
          exact if_pos hdigest
        · refine ⟨owned, .ok owned.count, ?_, h.pass ?_ (Or.inl ⟨rfl, hfits'⟩)⟩
          · rw [Session.look, hstored]
            exact if_neg hdigest
          · rintro ⟨bytes', expected, hbytes, hexpected, hsame⟩
            cases hstored.symm.trans hbytes
            exact hdigest (Option.map_eq_some_iff.mpr ⟨expected, hexpected, hsame.symm⟩)
  · -- The piece ends behind one that could not be read.
    have hshort' : s.storage.bytes.length < s.geometry.stop count :=
      Nat.lt_of_lt_of_le hshort (hgeometry.stop_mono (Nat.le_of_lt hindex) hcount)
    exact ⟨owned, .error e, rfl, h.stop hgeometry hcount hshort' e⟩

theorem looked_foldl (hgeometry : s.geometry.Sound) (howned : s.owned = .empty s.pieceCount)
    {count : Nat} (hcount : count ≤ s.pieceCount) :
    ∃ owned result, (List.range count).foldl s.look (.ok 0, s.owned) = (result, owned)
      ∧ s.Looked count owned result := by
  induction count with
  | zero =>
      refine ⟨.empty s.pieceCount, .ok 0, by rw [howned]; rfl, Bitfield.wellFormed_empty _, rfl,
        fun index => ?_, Or.inl ⟨by rw [Bitfield.count_empty], nofun⟩⟩
      rw [Bitfield.contains_empty]
      exact ⟨nofun, fun hbefore => absurd hbefore.1 (Nat.not_lt_zero _)⟩
  | succ count ih =>
      obtain ⟨owned, result, hfold, hlooked⟩ := ih (Nat.le_of_succ_le hcount)
      rw [List.range_succ, List.foldl_append, hfold]
      exact hlooked.look hgeometry hcount

/-- What looking through the whole storage finds. -/
structure Found (made : Session) : Prop where
  owned_only : made.checkExisting.2 = { made with owned := made.checkExisting.2.owned }
  owned_iff : ∀ index < made.pieceCount,
    made.checkExisting.2.owned.contains index = true ↔ made.holdings.Verified index
  counted : ∀ count, made.checkExisting.1 = .ok count → count = made.checkExisting.2.owned.count
  failed_iff : (∃ e, made.checkExisting.1 = .error e)
    ↔ made.storage.bytes.length < made.geometry.totalLength.toNat

theorem not_restored_of_check (h : t.initial = .check) (bytes : Bytes) :
    t.initial ≠ .restored bytes := by
  rw [h]
  exact InitialHave.noConfusion

theorem found_of_made (h : made.Made t) (hinitial : ∀ bytes, t.initial ≠ .restored bytes) :
    made.Found := by
  have hgeometry := Geometry.sound_of_make h.geometry_eq
  obtain ⟨owned, result, hfold, hlooked⟩ :=
    looked_foldl hgeometry (h.owned_eq hinitial) (Nat.le_refl made.pieceCount)
  have hcheck : made.checkExisting = (result, { made with owned := owned }) := by
    rw [checkExisting_eq_foldl, hfold]
    rfl
  have hlast : made.geometry.lastPiece.toNat < made.pieceCount := by
    rw [pieceCount, hgeometry.toNat_pieceCount]
    exact Nat.lt_succ_self _
  refine ⟨?_, fun index hindex => ?_, fun count hcount => ?_, ?_⟩
  · rw [hcheck]
  · rw [hcheck, hlooked.contains_iff]
    exact and_iff_right hindex
  · rw [hcheck] at hcount ⊢
    rcases hlooked.result_eq with ⟨hresult, _⟩ | ⟨⟨e, hresult⟩, _⟩
    · exact Except.ok.inj (hcount.symm.trans hresult)
    · cases hcount.symm.trans hresult
  · rw [hcheck]
    rcases hlooked.result_eq with ⟨hresult, hfits⟩ | ⟨hresult, index, hindex, hshort⟩
    · have hend := hfits _ hlast
      rw [hgeometry.stop_eq hlast, if_pos rfl] at hend
      constructor
      · rintro ⟨e, he⟩
        cases hresult.symm.trans he
      · exact fun hshort => absurd hend (Nat.not_le.mpr hshort)
    · exact iff_of_true hresult (Nat.lt_of_lt_of_le hshort (hgeometry.stop_le hindex))

/-! ### A later session -/

/-- The same torrent, which may be cut into other blocks, stored elsewhere and used otherwise. -/
structure SameTorrent (t t' : TorrentSource) : Prop where
  totalLength_eq : t'.geometry.totalLength = t.geometry.totalLength
  pieceLength_eq : t'.geometry.pieceLength = t.geometry.pieceLength
  hashes_eq : t'.hashes = t.hashes

/-- What is verified for one session is verified for a later one with the same storage. -/
theorem verified_of_sameTorrent (hsame : SameTorrent t t') (hadmitted : Admitted t s.holdings)
    (hstorage : t'.storage = s.storage) (hmade : made.Made t') {index : Nat}
    (h : s.holdings.Verified index) : made.holdings.Verified index := by
  obtain ⟨bytes, expected, hread, hexpected, hdigest⟩ := h
  have hgeometry := hmade.geometry_eq
  rw [hsame.totalLength_eq, hsame.pieceLength_eq] at hgeometry
  obtain ⟨_, hoffset, hlength⟩ := Geometry.make_pieces hadmitted.geometry_eq hgeometry
  refine ⟨bytes, expected, ?_, ?_, hdigest⟩
  · rw [stored, show made.holdings.geometry.offsetOf = _ from hoffset,
      show made.holdings.geometry.lengthOf = _ from hlength,
      show made.holdings.storage = _ from hmade.storage_eq, hstorage]
    exact hread
  · rw [show made.holdings.hashes = _ from hmade.hashes_eq, hsame.hashes_eq, ← hadmitted.hashes_eq]
    exact hexpected

theorem found_of_owned (hsame : SameTorrent t t') (hadmitted : Admitted t s.holdings)
    (hstorage : t'.storage = s.storage) (hmade : made.Made t')
    (hinitial : ∀ bytes, t'.initial ≠ .restored bytes) {index : Nat} (hindex : index < s.pieceCount)
    (h : s.holdings.Verified index) : made.checkExisting.2.owned.contains index = true := by
  have hgeometry := hmade.geometry_eq
  rw [hsame.totalLength_eq, hsame.pieceLength_eq] at hgeometry
  have hcount := (Geometry.make_pieces hadmitted.geometry_eq hgeometry).1
  have hlt : index < made.pieceCount := by
    rw [pieceCount, hcount]
    exact hindex
  exact ((found_of_made hmade hinitial).owned_iff index hlt).mpr
    (verified_of_sameTorrent hsame hadmitted hstorage hmade h)

/-- Making a session from a saved set succeeds as it does with nothing, and gives that set. -/
theorem make_restored {owned : Bitfield} (hwell : owned.WellFormed) (htrimmed : owned.Trimmed)
    (hcount : ∀ g, Geometry.make t.geometry.totalLength t.geometry.pieceLength t.options.blockLength
      = .ok g → g.pieceCount.toNat = owned.pieceCount) :
    make ownId { t with initial := .restored owned.bytes } connectionOptions policy
      = (make ownId { t with initial := .nothing } connectionOptions policy).map fun made =>
        { made with owned := owned } := by
  unfold make
  cases hgeometry : Geometry.make t.geometry.totalLength t.geometry.pieceLength
      t.options.blockLength with
  | error e => rfl
  | ok g =>
      simp only [bind, Except.bind, pure, Except.pure, hcount g hgeometry,
        Bitfield.ofBytes_bytes hwell htrimmed]
      cases t.options.allowed with
      | none => rfl
      | some allowed =>
          dsimp only
          split <;> rfl

theorem made_shutdown (h : made.Made t) : made.shutdown.Made t where
  geometry_eq := h.geometry_eq
  hashes_eq := h.hashes_eq
  options_eq := h.options_eq
  storage_eq := h.storage_eq
  owned_eq := h.owned_eq
  length_allowed := h.length_allowed
  members_eq := by
    show (⟨made.members.entries.map _⟩ : Table Nat Member) = .empty
    rw [h.members_eq]
    rfl
  availability_eq := h.availability_eq
  unfinished_eq := rfl
  verifying_eq := h.verifying_eq

end Session

namespace Swarm

open Session

variable {w w' : Swarm} {t : TorrentSource} {number : Nat} {s : Session}

theorem exists_beginAdd (hnew : w.torrents.contains t.infoHash = false)
    (hmake : Session.make w.peerId t w.options.connection w.options.reservation = .ok s) :
    ∃ w', w.beginAdd t = .ok (w.nextNumber, w') := by
  rw [beginAdd, hnew, hmake]
  exact ⟨_, rfl⟩

theorem made_of_beginAdd (h : w.beginAdd t = .ok (number, w')) :
    (∃ s, w'.sessions.get? number = some s ∧ s.Made t)
      ∧ w'.adding.get? number = some (t.initial == .check) := by
  rw [beginAdd] at h
  split at h
  · cases h
  split at h
  · cases h
  next made hmake =>
  cases h
  have hmade := made_of_make hmake
  refine ⟨?_, by rw [Table.get?_insert_self]⟩
  rw [Table.get?_insert_self]
  split
  · exact ⟨_, rfl, made_shutdown hmade⟩
  · exact ⟨_, rfl, hmade⟩

theorem finishAdd_of_check (hadding : w.adding.get? number = some true)
    (hsession : w.sessions.get? number = some s) :
    w.finishAdd number = match s.checkExisting with
      | (.ok _, s) => list { w with adding := w.adding.erase number } number s
      | (.error e, s) => (.error (.storage [e.message]), { w with
          adding := w.adding.erase number
          sessions := w.sessions.insert number s.shutdown }) := by
  rw [finishAdd, hadding, hsession]
  rfl

theorem finishAdd_of_made (hmade : s.Made t) (hinitial : t.initial = .check)
    (hadding : w.adding.get? number = some true) (hsession : w.sessions.get? number = some s) :
    if t.storage.bytes.length < t.geometry.totalLength.toNat then
      (∃ e, (w.finishAdd number).1 = .error e) ∧ (w.finishAdd number).2.torrents = w.torrents
        ∧ (w.finishAdd number).2.adding.get? number = none
        ∧ ∃ s', (w.finishAdd number).2.sessions.get? number = some s' ∧ s'.cancelled = true
    else
      w.finishAdd number
        = list { w with adding := w.adding.erase number } number s.checkExisting.2 := by
  have hfound := found_of_made hmade (not_restored_of_check hinitial)
  have hstorage : s.storage = t.storage := hmade.storage_eq
  have htotal := Geometry.totalLength_of_make hmade.geometry_eq
  have hfailed := hfound.failed_iff
  rw [hstorage, htotal] at hfailed
  cases hcheck : s.checkExisting with
  | mk result s' =>
      rw [hcheck] at hfailed
      have hfinish := finishAdd_of_check hadding hsession
      rw [hcheck] at hfinish
      cases result with
      | error e =>
          rw [if_pos (hfailed.mp ⟨e, rfl⟩), hfinish]
          refine ⟨⟨_, rfl⟩, rfl, ?_, s'.shutdown, ?_, rfl⟩
          · exact Table.get?_erase_self
          · exact Table.get?_insert_self
      | ok count =>
          rw [if_neg fun hshort => nomatch hfailed.mpr hshort]
          exact hfinish

/-- Looking through the storage finds just the verified pieces and counts them, and fails just if
the storage is too short; then no session is listed. Whatever a session has done that began with
nothing or with what was checked, a later session with the same storage finds everything that was
owned, and one that is made from the saved set owns just the same. -/
theorem restart_keeps_owned :
    (∀ ownId t connectionOptions policy made,
        Session.make ownId t connectionOptions policy = .ok made → t.initial = .check → made.Found)
      ∧ (∀ w t number w' w'', beginAdd w t = .ok (number, w') → t.initial = .check →
        w''.sessions.get? number = w'.sessions.get? number →
        w''.adding.get? number = w'.adding.get? number →
        ∃ s, w''.sessions.get? number = some s
          ∧ if t.storage.bytes.length < t.geometry.totalLength.toNat then
              (∃ e, (finishAdd w'' number).1 = .error e)
                ∧ (finishAdd w'' number).2.torrents = w''.torrents
                ∧ (finishAdd w'' number).2.adding.get? number = none
                ∧ ∃ s', (finishAdd w'' number).2.sessions.get? number = some s' ∧ s'.cancelled
                  = true
            else finishAdd w'' number
              = list { w'' with adding := w''.adding.erase number } number s.checkExisting.2)
      ∧ (∀ ownId t connectionOptions policy start s events, (∀ bytes, t.initial ≠ .restored bytes) →
        Starts ownId t connectionOptions policy start → Session.run? events start = some s →
        ∀ t', SameTorrent t t' → t'.storage = s.storage → ∀ ownId' connectionOptions' policy',
          (∀ made, Session.make ownId' { t' with initial := .check } connectionOptions' policy'
              = .ok made →
            ∀ index, s.owned.contains index = true →
              made.checkExisting.2.owned.contains index = true)
            ∧ Session.make ownId' { t' with initial := .restored s.owned.bytes } connectionOptions'
                policy'
              = (Session.make ownId' { t' with initial := .nothing } connectionOptions' policy').map
                fun made => { made with owned := s.owned }) := by
  refine ⟨fun ownId t connectionOptions policy made hmake hcheck => ?_,
    fun w t number w' w'' hbegin hcheck hsession hadding => ?_,
    fun ownId t connectionOptions policy start s events hinitial hstart hrun t' hsame hstorage ownId'
      connectionOptions' policy' => ?_⟩
  · exact found_of_made (made_of_make hmake) (not_restored_of_check hcheck)
  · obtain ⟨⟨s, hget, hmade⟩, hget'⟩ := made_of_beginAdd hbegin
    rw [hget] at hsession
    rw [hget', hcheck] at hadding
    exact ⟨s, hsession, finishAdd_of_made hmade hcheck hadding hsession⟩
  · obtain ⟨hsound₀, hadmitted₀⟩ := sound_of_starts hstart hinitial
    obtain ⟨hsound, hextends⟩ := sound_run hsound₀ hrun
    have hadmitted := hadmitted₀.of_extends hextends
    have hequipped := equipped_run hstart hrun
    constructor
    · intro made hmake index howned
      have hsame' : SameTorrent t { t' with initial := .check } :=
        ⟨hsame.totalLength_eq, hsame.pieceLength_eq, hsame.hashes_eq⟩
      refine found_of_owned hsame' hadmitted hstorage (made_of_make hmake) (not_restored_of_check rfl)
        ?_ (hsound.verified index howned)
      rw [← hequipped.fits.pieceCount_eq]
      exact Bitfield.lt_of_contains howned
    · refine make_restored hequipped.fits.wellFormed hequipped.trimmed fun g hgeometry => ?_
      rw [hsame.totalLength_eq, hsame.pieceLength_eq] at hgeometry
      rw [(Geometry.make_pieces hadmitted.geometry_eq hgeometry).1, hequipped.fits.pieceCount_eq]
      rfl

/-- The storage after a download, and one that is too short. -/
theorem restart_keeps_owned_download : ∃ (s made made' : Session) (w' : Swarm),
    s.owned.contains 0 = true ∧ s.storage = ⟨[10, 11, 12]⟩
      ∧ Session.make .zero { twoPieces with storage := ⟨[10, 11, 12]⟩ } {} {} = .ok made
      ∧ made.checkExisting.2.owned.contains 0 = true ∧ made.Found
      ∧ Session.make .zero { twoPieces with
          storage := ⟨[10, 11, 12]⟩, initial := .restored s.owned.bytes } {} {} = .ok made'
      ∧ made'.owned = s.owned
      ∧ beginAdd (make .zero {} 0) { twoPieces with storage := ⟨[0]⟩ } = .ok (0, w')
      ∧ ∃ e, (finishAdd w' 0).1 = .error e := by
  have hdone : (after? .zero twoPieces {} {} download).any (fun s => decide (s.owned.contains 0 = true
      ∧ s.storage = ⟨[10, 11, 12]⟩)) = true := by decide +kernel
  obtain ⟨start, s, hstart, hrun, htest⟩ := exists_run_of_after? hdone
  obtain ⟨howned, hstorage⟩ := of_decide_eq_true htest
  -- Without events there is just the session as it was made.
  have hmakes (t : TorrentSource) (h : (after? .zero t {} {} []).isSome = true) :
      ∃ made, Session.make .zero t {} {} = .ok made := by
    rw [← Option.any_true] at h
    obtain ⟨_, _, hstart', _⟩ := exists_run_of_after? h
    obtain ⟨made, _, hmake, _⟩ := hstart'.exists_make
    exact ⟨made, hmake⟩
  obtain ⟨made, hmake⟩ := hmakes { twoPieces with storage := ⟨[10, 11, 12]⟩ } (by decide +kernel)
  obtain ⟨made', hmake'⟩ := hmakes
    { twoPieces with storage := ⟨[10, 11, 12]⟩, initial := .nothing } (by decide +kernel)
  obtain ⟨short, hmakeShort⟩ := hmakes { twoPieces with storage := ⟨[0]⟩ } (by decide +kernel)
  obtain ⟨w', hbegin⟩ : ∃ w', beginAdd (make .zero {} 0) { twoPieces with storage := ⟨[0]⟩ }
      = .ok (0, w') := exists_beginAdd rfl hmakeShort
  obtain ⟨hfound, hadds, hrestarts⟩ := restart_keeps_owned
  obtain ⟨hchecks, hrestores⟩ := hrestarts .zero twoPieces {} {} start s download
    (not_restored_of_check rfl) hstart hrun { twoPieces with storage := ⟨[10, 11, 12]⟩ }
    ⟨rfl, rfl, rfl⟩ hstorage.symm .zero {} {}
  rw [hmake'] at hrestores
  obtain ⟨s', _, hfails⟩ :=
    hadds (make .zero {} 0) { twoPieces with storage := ⟨[0]⟩ } 0 w' w' hbegin
    rfl rfl rfl
  rw [if_pos (by decide)] at hfails
  exact ⟨s, made, _, w', howned, hstorage, hmake, hchecks made hmake 0 howned,
    hfound .zero _ {} {} made hmake rfl, hrestores, rfl, hbegin, hfails.1⟩

end Swarm

end TorrentCore
