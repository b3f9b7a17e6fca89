import TorrentCore.Proofs.Blocks
import TorrentCore.Proofs.Session.Uploading
import TorrentCore.Proofs.Wire.Codec

/-!
# Every block that is asked for comes back

Whoever asks for the blocks of a piece as they come in a walk over it makes no request that would be
held against him. The frame of the answer is read as a piece message, the block in it is the one
that was asked for, and it fits the slot that waits for it. After one answer to each request, in
whatever order they come, the slots hold the piece as it is in storage.

The walk, the check of a request, the frame, the check of what was received and the slots each
count in their own way. They are not compared with each other but each with `Geometry.block`.
-/

namespace TorrentCore

def BlockInfo.request (b : BlockInfo) : BlockRequest := ⟨b.piece.val, b.offset, b.size⟩

def Geometry.slotsOf (g : Geometry) (p : PieceIndex) (owner : Identifier) : PieceBuffer :=
  .make owner p.val.toNat (g.lengthOf p).toNat g.blockLength.toNat

namespace Session

/-- The packet with which a request is answered when its turn has come, if it is. -/
def frame? (s : Session) (u : UploadRequest) : Option Bytes :=
  (s.serve u).readUpload?.bind fun s' =>
    match s'.upload with
    | .sending _ _ parcel => some parcel.packet.bytes
    | _ => none

variable {g : Geometry} {p : PieceIndex} {storage : Storage} {limit : UInt32} {k : Nat}
  {s : Session} {u : UploadRequest} {frame bytes whole : Bytes} {sender : Identifier}

theorem prepared_of_run {ownId : Identifier} {t : TorrentSource}
    {connectionOptions : ConnectionOptions} {policy : ReservationPolicy} {start : Session}
    {events : List (Nanoseconds × Event)} (hstart : Starts ownId t connectionOptions policy start)
    (hrun : run? events start = some s) : s.Prepared :=
  (run_history (Q := Serves start) (serves_of_starts hstart) serves_happen hrun).toPrepared

/-- What is answered is the piece message with the block that is in storage. -/
theorem frame?_eq_some_iff (h : s.Prepared) (hidle : s.upload = .idle) :
    s.frame? u = some frame ↔ ∃ number block, s.Grants u number
      ∧ s.requested u.request = .ok block
      ∧ frame = Message.encode (.piece u.request.index u.request.offset block) := by
  -- Nothing is read unless the request was granted.
  have hnothing : ∀ s' : Session, s'.upload = .idle → s'.readUpload? = none := by
    intro s' hidle'
    rw [readUpload?, hidle']
  have hserving := serving_serve h u
  unfold frame?
  generalize s.serve u = served at hserving
  cases hserving with
  | passedOver hnot =>
      rw [hnothing _ hidle]
      constructor
      · intro he
        cases he
      · rintro ⟨number, _, hgrants, _⟩
        exact absurd hgrants (hnot number)
  | expelled number _ _ _ _ hillegal =>
      rw [hnothing (s.disconnect number) hidle]
      constructor
      · intro he
        cases he
      · rintro ⟨_, _, hgrants, _⟩
        exact absurd hgrants.legal hillegal
  | granted number packet hgrants hpacket =>
      cases hblock : s.requested u.request with
      | error e =>
          constructor
          · intro he
            rw [readUpload?] at he
            simp only [requested] at hblock
            simp only [hblock] at he
            cases he
          · rintro ⟨_, _, _, he, _⟩
            cases he
      | ok block =>
          have hread := overwrite_header hblock
          rw [← hpacket] at hread
          simp only [requested] at hblock
          rw [readUpload?]
          simp only [hblock, Option.bind_some, Option.some.injEq, hread]
          constructor
          · rintro rfl
            exact ⟨number, block, hgrants, rfl, rfl⟩
          · rintro ⟨_, _, _, hsame, rfl⟩
            cases hsame
            rfl

/-! ### Who answers -/

/-- A session that can be reached, has nothing to upload at the moment, and has a piece in storage
as it is here. -/
structure Seeds (g : Geometry) (p : PieceIndex) (storage : Storage) (s : Session) : Prop where
  reached : ∃ ownId t connectionOptions policy start events,
    Starts ownId t connectionOptions policy start ∧ run? events start = some s
  geometry_eq : s.geometry = g
  storage_eq : s.storage.read (g.offsetOf p).toNat (g.lengthOf p).toNat
    = storage.read (g.offsetOf p).toNat (g.lengthOf p).toNat
  idle : s.upload = .idle

/-- A session that serves a peer with a piece. -/
structure Admits (s : Session) (p : PieceIndex) (peerId : Identifier) (number : Nat) : Prop where
  active : s.paused = false
  listed : s.peers.get? peerId = some number
  unchoked : ∃ m, s.members.get? number = some m ∧ m.connection.peerChoked = false
  owned : s.owned.contains p.val.toNat = true

/-- A block that has come from `sender` in answer to the request for `b`: a session made the frame,
and what was read from the frame is in the block. -/
inductive AnswerTo (g : Geometry) (p : PieceIndex) (storage : Storage) (limit : UInt32)
    (sender : Identifier) (b : BlockInfo) : Block → Prop
  | read (s : Session) (u : UploadRequest) (frame : Bytes) (index offset : UInt32) (data : Buffer)
      (hseeds : s.Seeds g p storage) (hasked : u.request = b.request)
      (hframe : s.frame? u = some frame)
      (hdecode : Message.decode frame limit = .ok (.piece index offset data.bytes, frame.length)) :
      AnswerTo g p storage limit sender b ⟨sender, index.toNat, offset.toNat, data⟩

def part (g : Geometry) (p : PieceIndex) (whole : Bytes) (k : Nat) : Bytes :=
  whole.slice (k * g.blockLength.toNat)
    (min (g.size p - k * g.blockLength.toNat) g.blockLength.toNat)

/-! ### One block -/

theorem legal_request (hsound : g.Sound) (hpiece : g.piece? p.val = some p)
    (hgeometry : s.geometry = g) (hmax : g.blockLength ≤ s.options.maxRequest)
    (hk : k < g.blockCount p) : s.Legal (g.block p k).request := by
  obtain ⟨_, hoffset, hsize⟩ := hsound.toNat_block hk
  have hless := hsound.lt_blockCount_iff.mp hk
  have hpos := hsound.blockLength_pos
  rw [UInt32.le_iff_toNat_le] at hmax
  refine ⟨?_, ?_, ?_, ?_⟩
  · show p.val.toNat < s.geometry.pieceCount.toNat
    rw [hgeometry, hsound.toNat_pieceCount]
    exact Nat.lt_succ_of_le (Geometry.toNat_le_lastPiece hpiece)
  · show 0 < (g.block p k).size.toNat
    omega
  · show (g.block p k).size.toNat ≤ _
    omega
  · show (g.block p k).offset.toNat + (g.block p k).size.toNat ≤ (s.geometry.lengthOf p).toNat
    rw [hoffset, hsize, hgeometry]
    show _ ≤ g.size p
    omega

theorem read_part (hsound : g.Sound)
    (hwhole : storage.read (g.offsetOf p).toNat (g.lengthOf p).toNat = .ok whole)
    (hk : k < g.blockCount p) :
    storage.read ((g.offsetOf p).toNat + (g.block p k).offset.toNat) (g.block p k).size.toNat
        = .ok (part g p whole k)
      ∧ (part g p whole k).length = (g.block p k).size.toNat := by
  obtain ⟨_, hoffset, hsize⟩ := hsound.toNat_block hk
  have hless := hsound.lt_blockCount_iff.mp hk
  rw [hoffset, hsize]
  refine Storage.read_within hwhole ?_
  show _ ≤ g.size p
  omega

theorem requested_part (hsound : g.Sound) (hseeds : s.Seeds g p storage)
    (hwhole : storage.read (g.offsetOf p).toNat (g.lengthOf p).toNat = .ok whole)
    (hk : k < g.blockCount p) :
    s.requested (g.block p k).request = .ok (part g p whole k) := by
  show s.storage.read ((s.geometry.offsetOf p).toNat + (g.block p k).offset.toNat)
    (g.block p k).size.toNat = _
  rw [hseeds.geometry_eq]
  exact (read_part hsound (hseeds.storage_eq.trans hwhole) hk).1

theorem decode_frame? (hsound : g.Sound) (hlimit : g.blockLength.toNat + 9 ≤ limit.toNat)
    (hwhole : storage.read (g.offsetOf p).toNat (g.lengthOf p).toNat = .ok whole)
    (hseeds : s.Seeds g p storage) (hk : k < g.blockCount p)
    (hasked : u.request = (g.block p k).request) (hframe : s.frame? u = some frame) :
    Message.decode frame limit
      = .ok (.piece p.val (g.block p k).offset (part g p whole k), frame.length) := by
  obtain ⟨_, _, _, _, _, _, hstart, hrun⟩ := hseeds.reached
  obtain ⟨_, block, _, hblock, rfl⟩ :=
    (frame?_eq_some_iff (prepared_of_run hstart hrun) hseeds.idle).mp hframe
  have hpart := requested_part hsound hseeds hwhole hk
  obtain ⟨_, hlength⟩ := read_part hsound hwhole hk
  rw [hasked] at hblock ⊢
  obtain rfl := Except.ok.inj (hpart.symm.trans hblock)
  obtain ⟨_, _, hsize⟩ := hsound.toNat_block hk
  have hless := hsound.lt_blockCount_iff.mp hk
  have hpos := hsound.blockLength_pos
  have hword := limit.toNat_lt
  have hbody : (Message.piece p.val (g.block p k).offset (part g p whole k)).body.length
      = 9 + (part g p whole k).length := by
    simp only [Message.body, Message.kind?, Message.payload, Option.toList_some,
      List.length_append, List.length_cons, List.length_nil, Bytes.length_ofWord]
    omega
  have hfits : (Message.piece p.val (g.block p k).offset (part g p whole k)).body.length
      < 4294967296 := by omega
  have hcontent : (Message.piece p.val (g.block p k).offset (part g p whole k)).HasContent := by
    intro index offset he
    rw [(Message.piece.inj he).2.2, List.length_nil] at hlength
    omega
  have hword_le : (Message.piece p.val (g.block p k).offset (part g p whole k)).lengthWord
      ≤ limit := by
    rw [UInt32.le_iff_toNat_le, Message.toNat_lengthWord hfits]
    omega
  have hread := Message.decode_encode_append hfits hword_le hcontent []
  rw [List.append_nil, ← Message.length_encode hfits] at hread
  exact hread

theorem AnswerTo.fills (hsound : g.Sound) (hlimit : g.blockLength.toNat + 9 ≤ limit.toNat)
    (hwhole : storage.read (g.offsetOf p).toNat (g.lengthOf p).toNat = .ok whole)
    (hk : k < g.blockCount p) {b : Block}
    (h : AnswerTo g p storage limit sender (g.block p k) b) :
    b.sender = sender ∧ Assembler.Fills p.val.toNat (g.lengthOf p).toNat g.blockLength.toNat
      (part g p whole) k b := by
  obtain ⟨s, u, frame, index, offset, data, hseeds, hasked, hframe, hdecode⟩ := h
  have hread := decode_frame? hsound hlimit hwhole hseeds hk hasked hframe
  obtain ⟨_, hlength⟩ := read_part hsound hwhole hk
  obtain ⟨_, hoffset, hsize⟩ := hsound.toNat_block hk
  have hsame := hdecode.symm.trans hread
  simp only [Except.ok.injEq, Prod.mk.injEq, Message.piece.injEq, and_true] at hsame
  obtain ⟨rfl, rfl, hdata⟩ := hsame
  refine ⟨rfl, rfl, hoffset, hdata, ?_⟩
  show data.bytes.length = _
  rw [hdata, hlength, hsize]
  rfl

theorem answers_of_admits {number : Nat} (hsound : g.Sound) (hpiece : g.piece? p.val = some p)
    (hwhole : storage.read (g.offsetOf p).toNat (g.lengthOf p).toNat = .ok whole)
    (hseeds : s.Seeds g p storage) (hmax : g.blockLength ≤ s.options.maxRequest)
    (hadmits : s.Admits p u.peerId number) (hk : k < g.blockCount p)
    (hasked : u.request = (g.block p k).request) : ∃ frame, s.frame? u = some frame := by
  obtain ⟨_, _, _, _, _, _, hstart, hrun⟩ := hseeds.reached
  have hlegal := legal_request hsound hpiece hseeds.geometry_eq hmax hk
  have hblock := requested_part hsound hseeds hwhole hk
  rw [← hasked] at hlegal hblock
  have hgrants : s.Grants u number := by
    refine ⟨hadmits.active, hadmits.listed, hadmits.unchoked, hlegal, ?_⟩
    rw [hasked]
    exact hadmits.owned
  exact ⟨_, (frame?_eq_some_iff (prepared_of_run hstart hrun) hseeds.idle).mpr
    ⟨number, _, hgrants, hblock, rfl⟩⟩

theorem answerTo_of_frame? {b : BlockInfo} {index offset : UInt32} {block : Bytes}
    (hseeds : s.Seeds g p storage) (hasked : u.request = b.request)
    (hframe : s.frame? u = some frame)
    (hread : Message.decode frame limit = .ok (.piece index offset block, frame.length))
    {e : Endpoint} (hclean : e.hub.blockPool.Clean) (now : Nanoseconds) :
    ∃ e' taken, e.apply now (.piece index offset block) = .ok e'
      ∧ e'.connection.reader = .offeringBlock taken
      ∧ AnswerTo g p storage limit e.connection.peerId b taken := by
  refine ⟨_, _, rfl, rfl, .read s u frame _ _ _ hseeds hasked hframe ?_⟩
  have hfilled : (e.hub.blockPool.take.1.append block).bytes = block := (hclean.takeFilled _).1
  rw [hfilled]
  exact hread

theorem AnswerTo.isSome_add? (hsound : g.Sound) (hlimit : g.blockLength.toNat + 9 ≤ limit.toNat)
    (hwhole : storage.read (g.offsetOf p).toNat (g.lengthOf p).toNat = .ok whole)
    (hk : k < g.blockCount p) {b : Block}
    (h : AnswerTo g p storage limit sender (g.block p k) b) :
    ((g.slotsOf p sender).add? b).isSome = true := by
  obtain ⟨hsender, hfills⟩ := h.fills hsound hlimit hwhole hk
  have hempty : (g.slotsOf p sender).assembler.Collected p.val.toNat (g.lengthOf p).toNat
      g.blockLength.toNat (part g p whole) [] :=
    Assembler.collected_make hsound.blockLength_pos
  have hslot : k < (g.slotsOf p sender).assembler.slots.length := by
    rw [Geometry.slotsOf, PieceBuffer.make, Assembler.length_slots_make hsound.blockLength_pos]
    exact hk
  obtain ⟨a, hadd, _⟩ := hempty.add hslot List.not_mem_nil hfills
  have howner : b.sender = (g.slotsOf p sender).owner := hsender
  rw [PieceBuffer.add?, if_neg (not_not_intro howner), hadd]
  rfl

theorem flatten_parts (hsound : g.Sound) (hlength : whole.length = g.size p) :
    ((List.range (g.blockCount p)).map (part g p whole)).flatten = whole := by
  have hflatten := hsound.flatten_blocks p whole 0
  simp only [Nat.zero_add] at hflatten
  show ((List.range (g.blockCount p)).map fun k => part g p whole k).flatten = whole
  simp only [part]
  rw [hflatten, ← hlength, Bytes.slice, List.drop_zero, List.take_length]

/-! ### All blocks -/

theorem assembled_of_answers (hsound : g.Sound) (hlimit : g.blockLength.toNat + 9 ≤ limit.toNat)
    (hwhole : storage.read (g.offsetOf p).toNat (g.lengthOf p).toNat = .ok whole)
    {order : List BlockInfo} {blocks : List Block} (horder : order.Perm (g.blocks p))
    (hblocks : List.Forall₂ (AnswerTo g p storage limit sender) order blocks) :
    ∃ buffer piece rest, (g.slotsOf p sender).addAll? blocks = some buffer
      ∧ buffer.complete? = some (piece, rest) ∧ piece.piece = p.val.toNat
      ∧ piece.length = (g.lengthOf p).toNat ∧ piece.bytes = whole := by
  have hmem : ∀ b ∈ order, ∃ k, k < g.blockCount p ∧ b = g.block p k := by
    intro b hb
    rw [horder.mem_iff, hsound.blocks_eq] at hb
    obtain ⟨k, hk, rfl⟩ := List.mem_map.mp hb
    exact ⟨k, List.mem_range.mp hk, rfl⟩
  -- Each block has the number of its slot.
  have hslots : (order.map fun b => b.block.toNat).Perm (List.range (g.blockCount p)) := by
    have hperm := horder.map fun b => b.block.toNat
    rw [hsound.blocks_eq, List.map_map] at hperm
    have hnumbers : (List.range (g.blockCount p)).map ((fun b => b.block.toNat) ∘ g.block p)
        = List.range (g.blockCount p) := by
      conv_rhs => rw [← List.map_id (List.range (g.blockCount p))]
      exact List.map_congr_left fun k hk => (hsound.toNat_block (List.mem_range.mp hk)).1
    rwa [hnumbers] at hperm
  have hfills : List.Forall₂ (fun slot b => b.sender = sender
      ∧ Assembler.Fills p.val.toNat (g.lengthOf p).toNat g.blockLength.toNat (part g p whole)
        slot b) (order.map fun b => b.block.toNat) blocks := by
    rw [List.forall₂_map_left_iff]
    have hboth := (List.forall₂_and_left (p := fun b => ∃ k, k < g.blockCount p ∧ b = g.block p k)
      _ _).mpr ⟨hmem, hblocks⟩
    refine hboth.imp ?_
    rintro _ b ⟨⟨k, hk, rfl⟩, hanswer⟩
    rw [(hsound.toNat_block hk).1]
    exact hanswer.fills hsound hlimit hwhole hk
  obtain ⟨buffer, piece, rest, hadd, hcomplete, hpiece, hlength, hbytes⟩ :=
    PieceBuffer.complete?_addAll? hsound.blockLength_pos hslots hfills
  refine ⟨buffer, piece, rest, hadd, hcomplete, hpiece, hlength, hbytes.trans ?_⟩
  refine flatten_parts hsound ?_
  obtain ⟨_, hfits, rfl⟩ := Storage.read_eq_ok_iff.mp hwhole
  rw [Bytes.slice, List.length_take, List.length_drop]
  show min (g.size p) _ = _
  have : (g.lengthOf p).toNat = g.size p := rfl
  omega

/-- The blocks of a piece are asked for by legal requests, every session that admits the peer
answers them, and every answer is read as the block that was asked for, passes for that block, and
is taken by the slots of its owner. After one answer to each request, in any order, the slots are
complete and hold the piece as it is in storage. -/
theorem exchange_closes {total : UInt64} {pieceLength blockLength : UInt32}
    (hmake : Geometry.make total pieceLength blockLength = .ok g)
    (hpiece : g.piece? p.val = some p) (hstorage : storage.bytes.length = total.toNat)
    (hlimit : g.blockLength.toNat + 9 ≤ limit.toNat) :
    (∀ b ∈ g.blocks p,
      (∀ s : Session, s.geometry = g → g.blockLength ≤ s.options.maxRequest →
        s.isValidRequest b.request = true)
      ∧ (∀ (s : Session) (u : UploadRequest) (number : Nat), s.Seeds g p storage →
        g.blockLength ≤ s.options.maxRequest → s.Admits p u.peerId number →
        u.request = b.request → ∃ frame, s.frame? u = some frame)
      ∧ (∀ (s : Session) (u : UploadRequest) (frame : Bytes), s.Seeds g p storage →
        u.request = b.request → s.frame? u = some frame →
        ∃ bytes, storage.read ((g.offsetOf p).toNat + b.offset.toNat) b.size.toNat = .ok bytes
          ∧ Message.decode frame limit = .ok (.piece b.piece.val b.offset bytes, frame.length)
          ∧ g.received? b.piece.val b.offset (UInt32.ofNat bytes.length) = some b
          ∧ ∀ (e : Endpoint) (now : Nanoseconds), e.hub.blockPool.Clean → ∃ e' block,
            e.apply now (.piece b.piece.val b.offset bytes) = .ok e'
              ∧ e'.connection.reader = .offeringBlock block
              ∧ AnswerTo g p storage limit e.connection.peerId b block)
      ∧ ∀ (sender : Identifier) (block : Block), AnswerTo g p storage limit sender b block →
        ((g.slotsOf p sender).add? block).isSome = true)
    ∧ ∀ (sender : Identifier) (order : List BlockInfo) (blocks : List Block),
      order.Perm (g.blocks p) → List.Forall₂ (AnswerTo g p storage limit sender) order blocks →
      ∃ buffer piece rest, (g.slotsOf p sender).addAll? blocks = some buffer
        ∧ buffer.isComplete = true ∧ buffer.complete? = some (piece, rest)
        ∧ piece.piece = p.val.toNat
        ∧ storage.read (g.offsetOf p).toNat (g.lengthOf p).toNat = .ok piece.bytes := by
  have hsound := Geometry.sound_of_make hmake
  obtain ⟨whole, hwhole⟩ :
      ∃ whole, storage.read (g.offsetOf p).toNat (g.lengthOf p).toNat = .ok whole := by
    have hfits := hsound.offsetOf_add_size_le hpiece
    have hword := g.totalLength.toNat_lt
    rw [Geometry.totalLength_of_make hmake] at hfits hword
    exact ⟨_, Storage.read_eq_ok_iff.mpr
      ⟨Nat.lt_of_le_of_lt hfits hword, hstorage ▸ hfits, rfl⟩⟩
  refine ⟨fun b hb => ?_, fun sender order blocks horder hblocks => ?_⟩
  · rw [hsound.blocks_eq] at hb
    obtain ⟨k, hk, rfl⟩ := List.mem_map.mp hb
    rw [List.mem_range] at hk
    refine ⟨fun s hgeometry hmax => ?_, fun s u number hseeds hmax hadmits hasked => ?_,
      fun s u frame hseeds hasked hframe => ?_, fun sender block hanswer => ?_⟩
    · exact (isValidRequest_iff (hgeometry ▸ hsound) _).mpr
        (legal_request hsound hpiece hgeometry hmax hk)
    · exact answers_of_admits hsound hpiece hwhole hseeds hmax hadmits hk hasked
    · have hread := decode_frame? hsound hlimit hwhole hseeds hk hasked hframe
      obtain ⟨hpart, hlength⟩ := read_part hsound hwhole hk
      refine ⟨part g p whole k, hpart, hread, ?_, fun e now hclean =>
        answerTo_of_frame? hseeds hasked hframe hread hclean now⟩
      rw [hlength, UInt32.ofNat_toNat]
      exact hsound.received?_block hpiece hk
    · exact hanswer.isSome_add? hsound hlimit hwhole hk
  · obtain ⟨buffer, piece, rest, hadd, hcomplete, hindex, _, rfl⟩ :=
      assembled_of_answers hsound hlimit hwhole horder hblocks
    exact ⟨buffer, piece, rest, hadd, PieceBuffer.isComplete_of_complete? hcomplete, hcomplete,
      hindex, hwhole⟩

/-- Seven bytes that are in storage already. The first piece has three blocks, and the last one of
them is short. -/
def threeBlocks : TorrentSource where
  infoHash := .zero
  geometry := ⟨7, 5, 2, 1, 2, 3⟩
  hashes := ⟨Sha1.digest [1, 2, 3, 4, 5] ++ Sha1.digest [6, 7]⟩
  storage := ⟨[1, 2, 3, 4, 5, 6, 7]⟩
  initial := .check
  options := { blockLength := 2 }

/-- A peer that has joined asks for the blocks of the first piece, and the answers arrive in reverse
order. -/
theorem exchange_closes_threeBlocks : ∃ s peerId blocks buffer piece rest,
    Seeds threeBlocks.geometry ⟨0⟩ threeBlocks.storage s ∧ Admits s ⟨0⟩ peerId 0
      ∧ List.Forall₂ (AnswerTo threeBlocks.geometry ⟨0⟩ threeBlocks.storage 11 .zero)
        (threeBlocks.geometry.blocks ⟨0⟩).reverse blocks
      ∧ blocks.map (fun b => (b.offset, b.data.bytes)) = [(4, [5]), (2, [3, 4]), (0, [1, 2])]
      ∧ (threeBlocks.geometry.slotsOf ⟨0⟩ .zero).addAll? blocks = some buffer
      ∧ buffer.complete? = some (piece, rest) ∧ piece.bytes = [1, 2, 3, 4, 5] := by
  have hjoined : (after? .zero threeBlocks {} {} ((joins 0 [] ::
      List.replicate 4 (.own (.request 0 [])) : List Event).map fun event => (0, event))).any
      (fun s => (s.members.get? 0).any (fun m => !m.connection.peerChoked)
      && decide (s.upload = .idle ∧ s.geometry = threeBlocks.geometry ∧ s.storage = threeBlocks.storage
        ∧ threeBlocks.geometry.blockLength ≤ s.options.maxRequest ∧ s.paused = false
        ∧ s.peers.get? ⟨List.replicate 20 1, List.length_replicate⟩ = some 0
        ∧ s.owned.contains 0 = true)) = true := by
    decide +kernel
  obtain ⟨start, s, hstart, hrun, htest⟩ := exists_run_of_after? hjoined
  simp only [Bool.and_eq_true, decide_eq_true_eq] at htest
  obtain ⟨hmember, hidle, hgeometry, hsame, hmax, hactive, hlisted, howned⟩ := htest
  obtain ⟨m, hm, hunchoked⟩ := (Option.any_eq_true _ _).mp hmember
  have hseeds : Seeds threeBlocks.geometry ⟨0⟩ threeBlocks.storage s :=
    ⟨⟨_, _, _, _, start, _, hstart, hrun⟩, hgeometry, hsame ▸ rfl, hidle⟩
  have hadmits : Admits s ⟨0⟩ ⟨List.replicate 20 1, List.length_replicate⟩ 0 :=
    ⟨hactive, hlisted, ⟨m, hm, by simpa using hunchoked⟩, howned⟩
  have hmake : Geometry.make 7 5 2 = .ok threeBlocks.geometry := rfl
  have hpiece : threeBlocks.geometry.piece? (PieceIndex.mk 0).val = some ⟨0⟩ := rfl
  have hstorage : threeBlocks.storage.bytes.length = (7 : UInt64).toNat := rfl
  have hlimit : threeBlocks.geometry.blockLength.toNat + 9 ≤ (11 : UInt32).toNat := by decide
  obtain ⟨hblock, hall⟩ := exchange_closes hmake hpiece hstorage hlimit
  have hanswer : ∀ b ∈ threeBlocks.geometry.blocks ⟨0⟩, ∃ bytes,
      threeBlocks.storage.read ((threeBlocks.geometry.offsetOf ⟨0⟩).toNat + b.offset.toNat)
          b.size.toNat = .ok bytes
        ∧ AnswerTo threeBlocks.geometry ⟨0⟩ threeBlocks.storage 11 .zero b
          ⟨.zero, b.piece.val.toNat, b.offset.toNat, ⟨0, bytes⟩⟩ := by
    intro b hb
    obtain ⟨_, hserved, hread, _⟩ := hblock b hb
    obtain ⟨frame, hframe⟩ := hserved s ⟨_, .request, b.request⟩ 0 hseeds hmax hadmits rfl
    obtain ⟨bytes, hbytes, hdecode, _⟩ := hread s _ frame hseeds rfl hframe
    exact ⟨bytes, hbytes, .read s _ frame _ _ ⟨0, bytes⟩ hseeds rfl hframe hdecode⟩
  obtain ⟨first, hfirst, hanswer₁⟩ := hanswer ⟨⟨0⟩, 0, 0, 2⟩ (by decide)
  obtain ⟨second, hsecond, hanswer₂⟩ := hanswer ⟨⟨0⟩, 1, 2, 2⟩ (by decide)
  obtain ⟨third, hthird, hanswer₃⟩ := hanswer ⟨⟨0⟩, 2, 4, 1⟩ (by decide)
  obtain rfl : [1, 2] = first := Except.ok.inj hfirst
  obtain rfl : [3, 4] = second := Except.ok.inj hsecond
  obtain rfl : [5] = third := Except.ok.inj hthird
  have hanswers : List.Forall₂ (AnswerTo threeBlocks.geometry ⟨0⟩ threeBlocks.storage 11 .zero)
      (threeBlocks.geometry.blocks ⟨0⟩).reverse _ :=
    .cons hanswer₃ (.cons hanswer₂ (.cons hanswer₁ .nil))
  obtain ⟨buffer, piece, rest, hadd, _, hcomplete, _, hwhole⟩ :=
    hall .zero _ _ (List.reverse_perm _) hanswers
  exact ⟨s, _, _, buffer, piece, rest, hseeds, hadmits, hanswers, rfl, hadd, hcomplete,
    (Except.ok.inj hwhole).symm⟩

end Session

end TorrentCore
