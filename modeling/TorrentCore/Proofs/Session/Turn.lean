import TorrentCore.Proofs.Assembly
import TorrentCore.Proofs.Geometry
import TorrentCore.Proofs.Session.Outline

/-!
# The turns of a session

What an event does to the outline of a session, said once for every kind of event. Most of them do
nothing to it. A step of a connection changes its record, a new connection comes with an empty one,
and only consuming a block, finishing a piece and shutting down concern the pieces.
-/

namespace TorrentCore

namespace Session

/-! ### Consuming a block -/

@[simp] theorem outline_noteDiscarded (s : Session) (sender : Identifier) :
    (s.noteDiscarded sender).outline = s.outline := by
  unfold noteDiscarded
  split
  · refine outline_modify s _ ?_
    exact fun _ => ⟨rfl, rfl⟩
  · rfl

def withUnfinished (s : Session) (unfinished : Table Nat PieceBuffer) : Outline :=
  ⟨{ s.holdings with unfinished := unfinished }, s.roll⟩

inductive Merge (s : Session) (b : Block) : Option AssembledPiece × Session → Prop
  | dropped (s' : Session) (houtline : s'.outline = s.outline) : Merge s b (none, s')
  | refused (p : PieceIndex) (owner : Identifier) (s' : Session)
      (hpiece : s.geometry.piece? (UInt32.ofNat b.piece) = some p)
      (hmissing : s.owned.contains b.piece = false) (howner : s.owners.get? b.piece = some owner)
      (hrefused : (s.bufferFor p owner).add? b = none)
      (houtline : s'.outline
        = s.withUnfinished (s.unfinished.insert b.piece (s.bufferFor p owner))) :
      Merge s b (none, s')
  | filled (p : PieceIndex) (owner : Identifier) (buffer : PieceBuffer) (s' : Session)
      (hpiece : s.geometry.piece? (UInt32.ofNat b.piece) = some p)
      (hmissing : s.owned.contains b.piece = false) (howner : s.owners.get? b.piece = some owner)
      (hadded : (s.bufferFor p owner).add? b = some buffer) (hopen : buffer.isComplete = false)
      (houtline : s'.outline = s.withUnfinished (s.unfinished.insert b.piece buffer)) :
      Merge s b (none, s')
  | completed (p : PieceIndex) (owner : Identifier) (buffer : PieceBuffer)
      (piece : Option AssembledPiece) (s' : Session)
      (hpiece : s.geometry.piece? (UInt32.ofNat b.piece) = some p)
      (hmissing : s.owned.contains b.piece = false) (howner : s.owners.get? b.piece = some owner)
      (hadded : (s.bufferFor p owner).add? b = some buffer)
      (hdone : buffer.isComplete = true) (hcomplete : buffer.complete.1 = piece)
      (houtline : s'.outline = s.withUnfinished (s.unfinished.erase b.piece)) :
      Merge s b (piece, s')

theorem addBlock_cases (s : Session) (b : Block) : Merge s b (s.addBlock b) := by
  unfold addBlock
  split
  · exact .dropped _ rfl
  next p hpiece =>
  split
  · exact .dropped _ rfl
  next hmissing =>
  rw [Bool.not_eq_true] at hmissing
  split
  · exact .dropped _ rfl
  next owner howner =>
  simp only
  split
  · next hrefused =>
    exact .refused p owner _ hpiece hmissing howner hrefused (outline_noteDiscarded _ _)
  next buffer hadded =>
  split
  · next hdone =>
    exact .completed p owner buffer _ _ hpiece hmissing howner hadded hdone rfl rfl
  · next hopen =>
    exact .filled p owner buffer _ hpiece hmissing howner hadded (Bool.eq_false_iff.mpr hopen) rfl

/-- A block was taken, and what came of it is being verified if it completed its piece. -/
theorem consume_cases {s s' : Session} (h : s.consume? = some s') :
    ∃ block piece next before, before.outline = s.outline ∧ before.owners = s.owners
      ∧ s.verifying = none ∧ Merge before block (piece, next)
      ∧ s'.outline = ⟨{ next.holdings with verifying := piece }, next.roll⟩ := by
  unfold consume? at h
  split at h
  · cases h
  next hidle =>
  rw [Bool.or_eq_true, not_or, Option.not_isSome_iff_eq_none] at hidle
  split at h
  · cases h
  next block blocks _ =>
  cases h
  exact ⟨block, _, _, { s with hub := { s.hub with blocks := blocks } }, rfl, rfl, hidle.2,
    addBlock_cases _ block, rfl⟩

theorem Merge.outline_eq {s s' : Session} {b : Block} {piece : Option AssembledPiece}
    (h : Merge s b (piece, s')) : ∃ unfinished, s'.outline = s.withUnfinished unfinished := by
  cases h with
  | dropped _ houtline => exact ⟨s.unfinished, houtline⟩
  | refused _ _ _ _ _ _ _ houtline => exact ⟨_, houtline⟩
  | filled _ _ _ _ _ _ _ _ _ houtline => exact ⟨_, houtline⟩
  | completed _ _ _ _ _ _ _ _ _ _ _ houtline => exact ⟨_, houtline⟩

theorem roll_consume {s s' : Session} (h : s.consume? = some s') :
    s'.roll = s.roll ∧ s'.geometry = s.geometry := by
  obtain ⟨block, piece, next, before, hbefore, _, _, hmerge, hafter⟩ := consume_cases h
  obtain ⟨unfinished, hnext⟩ := hmerge.outline_eq
  have hroll : before.roll = s.roll := roll_of_outline hbefore
  have hgeometry : before.geometry = s.geometry := geometry_of_outline hbefore
  refine ⟨?_, ?_⟩
  · rw [roll_of_outline hafter, roll_of_outline hnext, hroll]
  · rw [geometry_of_outline hafter]
    exact (geometry_of_outline hnext).trans hgeometry

/-! ### Finishing a piece -/

@[simp] theorem outline_announce (s : Session) (index : Nat) :
    (s.announce index).outline = s.outline := by
  unfold announce
  generalize s.peers.values = numbers
  induction numbers generalizing s with
  | nil => rfl
  | cons number numbers ih =>
      rw [List.foldl_cons, ih]
      split
      · split <;> rfl
      · rfl

theorem outline_markOwned (s : Session) (piece : AssembledPiece) :
    (s.markOwned piece).outline = s.outline
      ∨ (piece.piece < s.owned.pieceCount ∧ s.owned.contains piece.piece = false
        ∧ (s.markOwned piece).outline
          = ⟨{ s.holdings with owned := s.owned.insert piece.piece }, s.roll⟩) := by
  unfold markOwned
  split
  · next owned hmark =>
    obtain ⟨hindex, hnew, rfl⟩ := Bitfield.mark_eq_ok_iff.mp hmark
    exact Or.inr ⟨hindex, by simpa using hnew, outline_announce _ _⟩
  · exact Or.inl rfl

theorem verdict_eq_stored {s : Session} {piece : AssembledPiece} {storage : Storage}
    (h : s.verdict piece = .stored storage) :
    ∃ expected, s.hashes.get? ⟨UInt32.ofNat piece.piece⟩ = some expected
      ∧ Sha1.digest piece.bytes = expected.bytes
      ∧ s.storage.writePiece (s.geometry.offsetOf ⟨UInt32.ofNat piece.piece⟩).toNat piece
        = .ok storage := by
  unfold verdict at h
  split at h
  · cases h
  next p hpiece =>
  cases Geometry.piece?_eq_some hpiece
  split at h
  · cases h
  next expected hexpected =>
  split at h
  · cases h
  next hverify =>
  rw [Bool.not_eq_true', Bool.not_eq_false] at hverify
  split at h
  · next storage' hwrite =>
    cases h
    exact ⟨expected, hexpected, (piece.verify_eq_true_iff expected).mp hverify, hwrite⟩
  · cases h

inductive Finishing (s : Session) (piece : AssembledPiece) (s' : Session) : Prop
  | notStored (houtline : s'.outline = ⟨{ s.holdings with verifying := none }, s.roll⟩)
  | stored (storage : Storage) (hverdict : s.verdict piece = .stored storage)
      (houtline : s'.outline
        = ⟨{ s.holdings with verifying := none, storage := storage }, s.roll⟩)
  | marked (storage : Storage) (hverdict : s.verdict piece = .stored storage)
      (hindex : piece.piece < s.owned.pieceCount)
      (houtline : s'.outline = ⟨{ s.holdings with
        verifying := none, storage := storage, owned := s.owned.insert piece.piece }, s.roll⟩)

theorem finishPiece_cases {s s' : Session} (h : s.finishPiece? = some s') :
    ∃ piece, s.verifying = some piece ∧ Finishing s piece s' := by
  unfold finishPiece? at h
  split at h
  · cases h
  next piece hverifying =>
  refine ⟨piece, hverifying, ?_⟩
  simp only at h
  cases hverdict : s.verdict piece with
  | stored storage =>
      simp only [hverdict] at h
      split at h
      · cases h
        exact .stored storage hverdict rfl
      · cases h
        rcases outline_markOwned (releasePiece { s with
            verifying := none
            storage := storage
            hub := { s.hub with blockPool := s.hub.blockPool.giveBackAll piece.blocks } }
          piece.piece) piece with hsame | ⟨hindex, _, hmarked⟩
        · exact .stored storage hverdict hsame
        · exact .marked storage hverdict hindex hmarked
  | mismatch | notStored cause =>
      simp only [hverdict] at h
      split at h
      · cases h
        exact .notStored rfl
      · cases h
        exact .notStored rfl

theorem roll_finishPiece {s s' : Session} (h : s.finishPiece? = some s') :
    s'.roll = s.roll ∧ s'.geometry = s.geometry := by
  obtain ⟨piece, _, hfinishing⟩ := finishPiece_cases h
  cases hfinishing with
  | notStored houtline =>
      exact ⟨roll_of_outline houtline, (geometry_of_outline houtline).trans rfl⟩
  | stored _ _ houtline =>
      exact ⟨roll_of_outline houtline, (geometry_of_outline houtline).trans rfl⟩
  | marked _ _ _ houtline =>
      exact ⟨roll_of_outline houtline, (geometry_of_outline houtline).trans rfl⟩

/-! ### Joining and shutting down -/

structure Begins (pieceCount : Nat) (c : Connection) : Prop where
  isRunning_eq : c.isRunning = true
  pieces_eq : c.pieces = .empty pieceCount

theorem addPeer_cases {s s' : Session} {now : Nanoseconds} {number : Nat} {link : Link}
    {address : Address} {h : Handshake} {buffer : ReadBuffer}
    (hadd : s.addPeer now number link address h buffer = .ok s') :
    ∃ m, Begins s.pieceCount m.connection ∧ s'.members = s.members.insert number m
      ∧ s'.hub = s.hub ∧ s'.holdings = s.holdings := by
  unfold addPeer at hadd
  split at hadd
  · cases hadd
  · split at hadd
    · cases hadd
    · cases hadd
      exact ⟨_, ⟨rfl, rfl⟩, rfl, rfl, rfl⟩

theorem outline_shutdown (s : Session) :
    s.shutdown.outline = s.withUnfinished .empty := by
  have hroll : s.shutdown.roll = s.roll := by
    show Roll.mk _ _ _ = Roll.mk _ _ _
    congr 1
    · rw [Table.keys, Table.keys, shutdown, List.map_map]
      rfl
    · funext number
      have hfound := Table.find?_map_values s.members.entries number fun m : Member =>
        { m with connection := m.connection.disconnect }
      refine (congrArg (Option.map fun m => standing m.connection) hfound).trans ?_
      rw [Option.map_map]
      rfl
  rw [outline, hroll]
  rfl

/-! ### Events -/

inductive Turn (now : Nanoseconds) (s : Session) (event : Event) : Session → Prop
  | quiet (s' : Session) (houtline : s'.outline = s.outline) : Turn now s event s'
  /-- A step of a connection, which concerns its peer's pieces only if it is one of the reader. -/
  | connection (number : Nat) (e e' : Endpoint) (he : s.endpoint? number = some e)
      (hrecorded : e.Recorded e')
      (hread : e'.connection.pieces = e.connection.pieces
        ∨ (event = .own (.receive number) ∧ e.receive? now = some e')) :
      Turn now s event (s.putEndpoint number e')
  | joined (number : Nat) (m : Member) (s' : Session) (hfresh : s.members.get? number = none)
      (hbegins : Begins s.pieceCount m.connection)
      (hmembers : s'.members = s.members.insert number m)
      (hhub : s'.hub = s.hub) (hholdings : s'.holdings = s.holdings) : Turn now s event s'
  | consumed (s' : Session) (hconsume : s.consume? = some s') (hevent : event = .own .consume) :
      Turn now s event s'
  | finished (s' : Session) (hfinish : s.finishPiece? = some s') (hevent : event = .own .finishPiece) :
      Turn now s event s'
  | shutdown (hevent : event = .shutdown) : Turn now s event s.shutdown

theorem connectionStep_cases {now : Nanoseconds} {s s' : Session} {event : Event} {number : Nat}
    {step : Endpoint → Option Endpoint} (hstep : ∀ e e', step e = some e' → e.Recorded e')
    (hread : ∀ e e', step e = some e' → e'.connection.pieces = e.connection.pieces
      ∨ (event = .own (.receive number) ∧ e.receive? now = some e'))
    (h : s.connectionStep? number step = some s') : Turn now s event s' := by
  unfold connectionStep? at h
  split at h
  · cases h
  next e he =>
  obtain ⟨e', he', rfl⟩ := Option.map_eq_some_iff.mp h
  exact .connection number e e' he (hstep e e' he') (hread e e' he')

theorem act_cases {now : Nanoseconds} {s s' : Session} {action : Action}
    (h : s.act? now action = some s') : Turn now s (.own action) s' := by
  cases action with
  | stop number =>
      exact connectionStep_cases (fun _ _ => Endpoint.recorded_stop)
        (fun _ _ he => Or.inl (Endpoint.pieces_stop he)) h
  | receive number =>
      exact connectionStep_cases (fun _ _ => Endpoint.recorded_receive)
        (fun _ _ he => Or.inr ⟨rfl, he⟩) h
  | transmit number =>
      exact connectionStep_cases (fun _ _ => Endpoint.recorded_transmit)
        (fun _ _ he => Or.inl (Endpoint.pieces_transmit he)) h
  | closeOut number => exact .quiet s' (outline_closeOut h)
  | request number coins => exact .quiet s' (outline_request h)
  | announce position late => exact .quiet s' (outline_sendAnnouncement h)
  | consume => exact .consumed s' h rfl
  | finishPiece => exact .finished s' h rfl
  | pickUpload => exact .quiet s' (outline_pickUpload h)
  | readUpload => exact .quiet s' (outline_readUpload h)
  | sendUpload late => exact .quiet s' (outline_sendUpload h)
  | expire => exact .quiet s' (outline_expire h)

theorem happen_cases {now : Nanoseconds} {s s' : Session} {event : Event}
    (h : s.happen? now event = some s') : Turn now s event s' := by
  cases event with
  | own action => exact act_cases h
  | connect number link address handshake buffer =>
      rw [happen?] at h
      split at h
      · cases h
      next hfresh =>
      rw [Option.not_isSome_iff_eq_none] at hfresh
      cases hadd : s.addPeer now number link address handshake buffer with
      | ok added =>
          rw [hadd] at h
          cases h
          obtain ⟨m, hbegins, hmembers, hhub, hholdings⟩ := addPeer_cases hadd
          exact .joined number m s' hfresh hbegins hmembers hhub hholdings
      | error e =>
          rw [hadd] at h
          cases h
  | farEnd number link =>
      cases h
      refine .quiet _ (outline_modify s number ?_)
      exact fun _ => ⟨rfl, rfl⟩
  | disconnect number =>
      cases h
      exact .quiet _ (outline_disconnect s number)
  | send number m late => exact .quiet s' (outline_send h)
  | dropAllPeers =>
      cases h
      exact .quiet _ (outline_dropAllPeers s)
  | addAddress a =>
      cases h
      exact .quiet _ (outline_addAddress s a)
  | shutdown =>
      cases h
      exact .shutdown rfl
  | pause | resume | removeFinishedPeers | startConnecting a | doneConnecting a =>
      cases h
      exact .quiet _ rfl

end Session

end TorrentCore
