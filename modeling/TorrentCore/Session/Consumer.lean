import TorrentCore.Session.State

/-!
# Consuming blocks

Blocks are taken from their channel one at a time. A block is merged if its piece is missing, was
asked from its sender last, and has that slot empty. When the last slot is filled the piece is
verified and stored, and only then what comes of it is applied: the piece is ours if its digest is
the expected one and it was stored, and in any case the claim on it ends.
-/

namespace TorrentCore

namespace Session

def dropBlock (s : Session) (b : Block) : Session :=
  { s with hub := { s.hub with blockPool := s.hub.blockPool.giveBack b.data } }

def noteDiscarded (s : Session) (sender : Identifier) : Session :=
  match s.peers.get? sender with
  | some number => { s with members := s.members.modify number fun m => { m with
      connection := { m.connection with counters := m.connection.counters.blockDiscarded } } }
  | none => s

/-- The slots of a piece, which now belong to `owner`. -/
def bufferFor (s : Session) (p : PieceIndex) (owner : Identifier) : PieceBuffer :=
  match s.unfinished.get? p.val.toNat with
  | some buffer => { buffer with owner := owner }
  | none => .make owner p.val.toNat (s.geometry.lengthOf p).toNat s.geometry.blockLength.toNat

/-- Merges a block. Gives the piece once all its blocks are in. -/
def addBlock (s : Session) (b : Block) : Option AssembledPiece × Session :=
  match s.geometry.piece? (UInt32.ofNat b.piece) with
  | none => (none, s.dropBlock b)
  | some p =>
    if s.owned.contains b.piece then (none, s.dropBlock b)
    else match s.owners.get? b.piece with
      | none => (none, s.dropBlock b)
      | some owner =>
        let buffer := s.bufferFor p owner
        match buffer.add? b with
        | none =>
          let s := { s with unfinished := s.unfinished.insert b.piece buffer }
          (none, (s.dropBlock b).noteDiscarded b.sender)
        | some buffer =>
          let s := { s with counters := s.counters.blockFetched b.data.bytes.length }
          if buffer.isComplete then
            (buffer.complete.1, { s with unfinished := s.unfinished.erase b.piece })
          else (none, { s with unfinished := s.unfinished.insert b.piece buffer })

/-- Takes the next block, unless a piece is being verified. -/
def consume? (s : Session) : Option Session :=
  if s.cancelled || s.verifying.isSome then none
  else match s.hub.blocks.take? with
    | none => none
    | some (block, blocks) =>
      let (piece, s) := addBlock { s with hub := { s.hub with blocks := blocks } } block
      some { s with verifying := piece }

/-- What came of verifying and storing a piece. -/
inductive Verdict where
  | stored (storage : Storage)
  | mismatch
  | notStored (cause : String)

/-- Verifies a piece and stores it. -/
def verdict (s : Session) (piece : AssembledPiece) : Verdict :=
  match s.geometry.piece? (UInt32.ofNat piece.piece) with
  | none => .notStored "bug: invalid piece index"
  | some p => match s.hashes.get? p with
    | none => .notStored "bug: no hash for piece"
    | some expected =>
      if !piece.verify expected then .mismatch
      else match s.storage.writePiece (s.geometry.offsetOf p).toNat piece with
        | .ok storage => .stored storage
        | .error e => .notStored e.message

/-- Tells every peer that has not told us of the piece that we have it. -/
def announce (s : Session) (index : Nat) : Session :=
  s.peers.values.foldl (fun s number =>
    match s.members.get? number with
    | some m =>
      if m.connection.pieces.contains index then s
      else
        let (parcel, hub) := s.hub.pack (.has (UInt32.ofNat index))
        { s with hub := hub, announcements := s.announcements ++ [⟨number, parcel⟩] }
    | none => s) s

def markOwned (s : Session) (piece : AssembledPiece) : Session :=
  match s.owned.mark piece.piece with
  | .ok (true, owned) =>
    announce { s with owned := owned, counters := s.counters.pieceVerified piece.length 0 }
      piece.piece
  | _ => s

/-- The claim on a piece ends. -/
def releasePiece (s : Session) (index : Nat) : Session :=
  { s with
    owners := s.owners.erase index
    reservations := (s.reservations.release index).2 }

/-- A piece is done. Who waits for that is told, also if it was the last one. -/
def notePieceDone (s : Session) : Session :=
  { s with
    piecesDone := s.piecesDone + 1
    finishedNotices := if s.isFinished then s.finishedNotices + 1 else s.finishedNotices }

/-- Applies what came of verifying a piece. After a shutdown nothing but the storage changes. -/
def finishPiece? (s : Session) : Option Session :=
  match s.verifying with
  | none => none
  | some piece =>
    let verdict := s.verdict piece
    let s := { s with
      verifying := none
      storage := match verdict with
        | .stored storage => storage
        | _ => s.storage
      hub := { s.hub with blockPool := s.hub.blockPool.giveBackAll piece.blocks } }
    if s.cancelled then some s
    else
      let s := s.releasePiece piece.piece
      some (notePieceDone (match verdict with
        | .stored _ => s.markOwned piece
        | .mismatch => { s with counters := s.counters.hashFailed }
        | .notStored _ => s))

/-- Marks every piece whose bytes in storage have the expected digest, and counts them. The pieces
before a failing read stay marked. -/
def checkExisting (s : Session) : Except StorageError Nat × Session :=
  (List.range s.pieceCount).foldl (fun (good, s) i =>
    match good with
    | .error e => (.error e, s)
    | .ok good =>
      let p : PieceIndex := ⟨UInt32.ofNat i⟩
      match s.storage.read (s.geometry.offsetOf p).toNat (s.geometry.lengthOf p).toNat with
      | .error e => (.error e, s)
      | .ok bytes =>
        if (s.hashes.get? p).map Identifier.bytes = some (Sha1.digest bytes) then
          (.ok (good + 1), { s with owned := s.owned.insert i })
        else (.ok good, s)) ((.ok 0 : Except StorageError Nat), s)

end Session

end TorrentCore
