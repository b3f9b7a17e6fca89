import TorrentCore.Proofs.Connection.Hearing
import TorrentCore.Proofs.Session.Errand

/-!
# The switchboard of a session

Over the line of a connection goes what its requester says, what is announced and what is uploaded,
and over it comes what the peer says. The switchboard has the lines of all connections, with what
their requesters are about to say, and the announcements that wait for a place. Here stands what the
functions of a session make of it: most of them leave it alone, a message that is accepted changes
one line, a requester goes on as `Goes` says, and only a piece that is marked is announced.
-/

namespace TorrentCore

/-- What only the steps of a connection and what is sent over it change, and its requester. -/
structure Line where
  options : ConnectionOptions
  status : RunStatus
  queue : Channel Buffer
  writer : WriterPhase
  buffer : ReadBuffer
  impression : Impression
  link : Link
  requester : Requester

structure Board where
  line : Nat → Option Line
  announcements : List Announcement

def Board.put (b : Board) (number : Nat) (line : Line) : Board :=
  { b with line := fun n => if n = number then some line else b.line n }

structure Parcel.Carries (p : Parcel) (m : Message) : Prop where
  bytes_eq : p.packet.bytes = m.encode
  message_eq : p.message = some m

/-- What a requester says when it has greeted its peer. -/
inductive Message.IsAsking : Message → Prop
  | interested : IsAsking .interested
  | notInterested : IsAsking .notInterested
  | request (r : BlockRequest) : IsAsking (.request r)

def Requester.isSending : Requester → Bool
  | .sending _ _ => true
  | _ => false

/-- The requester has greeted its peer, and is not about to send anything. -/
def Requester.isSettled : Requester → Bool
  | .greeting | .unchoking | .sending _ _ => false
  | _ => true

namespace Board

variable {b : Board} {number n : Nat} {line line' : Line}

theorem put_same (h : b.line number = some line) : b.put number line = b := by
  show Board.mk _ _ = Board.mk b.line _
  congr 1
  funext n
  split
  · next heq => rw [heq, h]
  · rfl

theorem put_put : (b.put number line).put number line' = b.put number line' := by
  show Board.mk _ _ = Board.mk _ _
  congr 1
  funext n
  by_cases heq : n = number
  · rw [if_pos heq, if_pos heq]
  · rw [if_neg heq, if_neg heq]
    exact if_neg heq

theorem line_put_self : (b.put number line).line number = some line := if_pos rfl

theorem line_put_of_ne (h : n ≠ number) : (b.put number line).line n = b.line n := if_neg h

end Board

namespace Hub

theorem carries_pack {h : Hub} (hclean : h.packetPool.Clean) (m : Message) :
    (h.pack m).1.Carries m := ⟨(bytes_pack hclean m).1, rfl⟩

end Hub

def Connection.line (c : Connection) (link : Link) (r : Requester) : Line :=
  ⟨c.options, c.status, c.queue, c.writer, c.buffer, ⟨c.pieces, c.knowsPieces, c.amChoked⟩, link, r⟩

namespace Endpoint

variable {e e' : Endpoint} {now : Nanoseconds} {p : Parcel}

/-- Over a line on which nothing has changed the streams go on. -/
theorem aside_of_line {r r' : Requester}
    (h : e'.connection.line e'.link r' = e.connection.line e.link r)
    (hclean : e.hub.packetPool.Clean → e'.hub.packetPool.Clean) : e.Aside e' := by
  rw [Connection.line, Connection.line, Line.mk.injEq] at h
  obtain ⟨hoptions, hstatus, hqueue, hwriter, hbuffer, _, hlink, _⟩ := h
  exact ⟨⟨hqueue, hwriter, by rw [hlink], hstatus, hclean⟩, ⟨hbuffer, by rw [hlink], hoptions⟩⟩

theorem keepsHearing_of_line {r r' : Requester}
    (h : e'.connection.line e'.link r' = e.connection.line e.link r) : e.KeepsHearing e' := by
  rw [Connection.line, Connection.line, Line.mk.injEq] at h
  obtain ⟨hoptions, _, _, _, hbuffer, himpression, hlink, _⟩ := h
  exact ⟨hbuffer, by rw [hlink], hoptions, himpression⟩

end Endpoint

namespace Session

variable {s s' : Session} {now : Nanoseconds} {late : Bool} {number : Nat} {p : Parcel} {m : Member}

def line (m : Member) : Line := m.connection.line m.link m.requester

def board (s : Session) : Board :=
  ⟨fun number => (s.members.get? number).map line, s.announcements⟩

theorem line_of_member (hm : s.members.get? number = some m) :
    s.board.line number = some (line m) :=
  congrArg (Option.map line) hm

theorem member_of_line {l : Line} (h : s.board.line number = some l) :
    ∃ m, s.members.get? number = some m ∧ line m = l := Option.map_eq_some_iff.mp h

/-! ### Members -/

theorem board_modify (hm : s.members.get? number = some m) (f : Member → Member) :
    board { s with members := s.members.modify number f } = s.board.put number (line (f m)) := by
  show Board.mk _ _ = Board.mk _ _
  congr 1
  funext n
  rw [Table.get?_modify]
  split
  · rw [hm, Option.map_some, Option.map_some]
  · rfl

theorem board_modify_same (s : Session) (number : Nat) {f : Member → Member}
    (h : ∀ m, line (f m) = line m) :
    board { s with members := s.members.modify number f } = s.board := by
  show Board.mk _ _ = Board.mk _ _
  congr 1
  funext n
  rw [Table.get?_modify]
  split
  · next heq =>
    rw [heq, Option.map_map]
    congr 1
    funext m
    exact h m
  · rfl

theorem board_modify_none (hm : s.members.get? number = none) (f : Member → Member) :
    board { s with members := s.members.modify number f } = s.board := by
  show Board.mk _ _ = Board.mk _ _
  congr 1
  funext n
  rw [Table.get?_modify]
  split
  · next heq => rw [heq, hm, Option.map_none]
  · rfl

theorem board_setRequester (hm : s.members.get? number = some m) (r : Requester) :
    (s.setRequester number r).board = s.board.put number { line m with requester := r } :=
  board_modify hm fun m => { m with requester := r }

theorem board_disconnect (s : Session) (number : Nat) : (s.disconnect number).board = s.board :=
  board_modify_same s number fun _ => rfl

theorem board_putEndpoint (hm : s.members.get? number = some m) (e : Endpoint) :
    (s.putEndpoint number e).board
      = s.board.put number (e.connection.line e.link m.requester) :=
  board_modify (s := { s with hub := e.hub }) hm fun m =>
    { m with connection := e.connection, link := e.link }

/-! ### Sending -/

theorem board_of_sent (h : s.deliver now late number p = .sent s') : ∃ m e,
    s.members.get? number = some m ∧ Endpoint.send ⟨m.connection, s.hub, m.link⟩ now late p
      = .sent e
      ∧ s' = s.putEndpoint number e := by
  unfold deliver at h
  split at h
  · cases h
  next e he =>
  obtain ⟨m, hm, rfl⟩ := Option.map_eq_some_iff.mp he
  split at h
  · next e' hsent =>
    cases h
    exact ⟨m, e', hm, hsent, rfl⟩
  · cases h
  · cases h

theorem board_of_refused (h : s.deliver now late number p = .refused s') : s'.board = s.board
    ∧ ∀ m, s.members.get? number = some m →
      m.connection.cancelled = true ∨ m.connection.queue.closed = true := by
  unfold deliver at h
  split at h
  · next hnone =>
    cases h
    refine ⟨rfl, fun m hm => ?_⟩
    rw [endpoint?, hm] at hnone
    cases hnone
  next e he =>
  obtain ⟨m, hm, rfl⟩ := Option.map_eq_some_iff.mp he
  split at h
  · cases h
  · cases h
  · next cause e' hrefused =>
    cases h
    obtain ⟨rfl, hwhy⟩ := Endpoint.send_eq_refused hrefused
    refine ⟨?_, fun m' hm' => ?_⟩
    · rw [board_putEndpoint hm]
      exact Board.put_same (line_of_member hm)
    · cases hm.symm.trans hm'
      exact hwhy

/-! ### Requesters -/

/-- How a requester goes on by itself. -/
inductive Goes (s : Session) (m : Member) : Requester → Prop
  | silently (hbefore : m.requester = .greeting) (hnone : s.owned.hasNone = true) :
      Goes s m .unchoking
  | greets (hbefore : m.requester = .greeting) (hsome : s.owned.hasNone = false) :
      Goes s m (.sending (s.hub.pack (.bitfield s.owned.bytes)).1 .unchoking)
  | unchokes (hbefore : m.requester = .unchoking) :
      Goes s m (.sending (s.hub.pack .unchoke).1 .awaitingPieces)
  | onward (r : Requester) (hbefore : m.requester.isSettled = true) (hafter : r.isSettled = true) :
      Goes s m r
  | asks (message : Message) (after : Requester) (hbefore : m.requester.isSettled = true)
      (hasking : message.IsAsking) (hafter : after.isSettled = true) :
      Goes s m (.sending (s.hub.pack message).1 after)

/-- The requester of a connection goes on by itself, and nothing else is changed on the board. -/
def GoesOn (s : Session) (number : Nat) (m : Member) (s' : Session) : Prop :=
  ∃ r, s.Goes m r ∧ s'.board = s.board.put number { line m with requester := r }

theorem goesOn_assign (hm : s.members.get? number = some m) {r : Requester}
    (hbefore : m.requester.isSettled = true) (hafter : r.isSettled = true) :
    s.GoesOn number m (s.setRequester number r) :=
  ⟨r, .onward r hbefore hafter, board_setRequester hm r⟩

theorem board_ask (hm : s.members.get? number = some m) (message : Message) (after : Requester) :
    (s.ask number message after).board
      = s.board.put number { line m with requester := .sending (s.hub.pack message).1 after } :=
  board_setRequester (s := { s with hub := (s.hub.pack message).2 }) hm _

theorem goesOn_ask (hm : s.members.get? number = some m) {message : Message} {after : Requester}
    (hbefore : m.requester.isSettled = true) (hasking : message.IsAsking)
    (hafter : after.isSettled = true) : s.GoesOn number m (s.ask number message after) :=
  ⟨_, .asks message after hbefore hasking hafter, board_ask hm message after⟩

theorem goesOn_tell (hm : s.members.get? number = some m) (c : Connection) (interested : Bool)
    {after : Requester} (hbefore : m.requester.isSettled = true) (hafter : after.isSettled = true) :
    s.GoesOn number m (s.tell number c interested after) := by
  unfold tell
  split
  · exact goesOn_assign hm hbefore hafter
  · refine goesOn_ask hm hbefore ?_ hafter
    cases interested
    · exact .notInterested
    · exact .interested

theorem goesOn_choose (hm : s.members.get? number = some m) (hbefore : m.requester.isSettled = true)
    (c : Connection) (coins : List Bool) : s.GoesOn number m (s.choose number c coins) := by
  unfold choose
  split
  · exact goesOn_tell hm c false hbefore rfl
  · split
    · exact goesOn_assign hm hbefore rfl
    · split
      · exact goesOn_tell hm c true hbefore rfl
      · exact goesOn_tell hm c _ hbefore rfl

theorem goesOn_claim (hm : s.members.get? number = some m) (hbefore : m.requester.isSettled = true)
    (now : Nanoseconds) (c : Connection) (index : Nat) :
    s.GoesOn number m (s.claim now number c index) := by
  unfold claim
  split
  · exact goesOn_assign hm hbefore rfl
  · split
    · exact goesOn_assign hm hbefore rfl
    · simp only
      split
      · exact goesOn_assign hm hbefore rfl
      · next reservations _ =>
        exact ⟨_, .onward _ hbefore rfl, board_setRequester (s := { s with
          reservations := reservations
          owners := s.owners.insert index c.peerId }) hm _⟩

theorem goesOn_request {coins : List Bool} (hm : s.members.get? number = some m)
    (hwaits : ∀ parcel after, m.requester ≠ .sending parcel after)
    (h : s.request? now number coins = some s') : s.GoesOn number m s' := by
  unfold request? at h
  rw [hm] at h
  simp only at h
  split at h
  · cases h
  have hsettled : m.requester ≠ .greeting → m.requester ≠ .unchoking →
      m.requester.isSettled = true := by
    intro hgreeting hunchoking
    unfold Requester.isSettled
    split
    · exact absurd ‹_› hgreeting
    · exact absurd ‹_› hunchoking
    · exact absurd ‹_› (hwaits _ _)
    · rfl
  cases hphase : m.requester with
  | sending parcel after => exact absurd hphase (hwaits parcel after)
  | greeting =>
      rw [hphase] at h
      cases h
      split
      · next hnone => exact ⟨_, .silently hphase hnone, board_setRequester hm _⟩
      · next hsome => exact ⟨_, .greets hphase (by simpa using hsome), board_ask hm _ _⟩
  | unchoking =>
      rw [hphase] at h
      cases h
      exact ⟨_, .unchokes hphase, board_ask hm _ _⟩
  | choosing =>
      rw [hphase] at h
      cases h
      exact goesOn_choose hm (by rw [hphase]; rfl) m.connection coins
  | claiming index =>
      rw [hphase] at h
      cases h
      exact goesOn_claim hm (by rw [hphase]; rfl) now m.connection index
  | parting =>
      rw [hphase] at h
      cases h
      have hretired := goesOn_assign hm (r := .retired) (by rw [hphase]; rfl) rfl
      split
      · obtain ⟨r, hgoes, hboard⟩ := hretired
        exact ⟨r, hgoes, (board_disconnect _ number).trans hboard⟩
      · exact hretired
  | _ =>
      have hbefore : m.requester.isSettled = true := by
        rw [hphase]
        rfl
      rw [hphase] at h
      simp only at h
      repeat' split at h
      all_goals cases h
      all_goals first
        | exact goesOn_assign hm hbefore rfl
        | exact goesOn_ask hm hbefore (.request _) rfl

/-! ### Blocks and uploads -/

theorem board_noteDiscarded (s : Session) (sender : Identifier) :
    (s.noteDiscarded sender).board = s.board := by
  unfold noteDiscarded
  split
  · exact board_modify_same s _ fun _ => rfl
  · rfl

theorem board_addBlock (s : Session) (b : Block) : (s.addBlock b).2.board = s.board := by
  unfold addBlock
  repeat' split
  · rfl
  · rfl
  · rfl
  · simp only
    split
    · exact board_noteDiscarded _ _
    · split <;> rfl

theorem board_consume (h : s.consume? = some s') : s'.board = s.board := by
  unfold consume? at h
  split at h
  · cases h
  split at h
  · cases h
  next block blocks _ =>
  cases h
  exact (board_addBlock { s with hub := { s.hub with blocks := blocks } } block).trans rfl

theorem board_serve (s : Session) (r : UploadRequest) : (s.serve r).board = s.board := by
  unfold serve
  repeat' split
  all_goals first
    | rfl
    | exact board_disconnect s _

theorem board_pickUpload (h : s.pickUpload? = some s') : s'.board = s.board := by
  obtain ⟨_, rfl⟩ := pickUpload_eq h
  split
  · rfl
  · exact board_serve _ _

theorem board_readUpload (h : s.readUpload? = some s') : s'.board = s.board := by
  unfold readUpload? at h
  split at h
  · simp only at h
    split at h <;> cases h <;> rfl
  · cases h

theorem board_noteUploaded (s : Session) (number length : Nat) :
    (s.noteUploaded number length).board = s.board :=
  (board_modify_same { s with counters := s.counters.blockUploaded length } number
    (f := fun m => { m with connection := { m.connection with
      counters := m.connection.counters.blockUploaded length } }) fun _ => rfl).trans rfl

/-! ### Pieces -/

/-- One step of `announce`: a peer is told of a piece, unless it has told us. -/
def announceTo (index : Nat) (s : Session) (number : Nat) : Session :=
  match s.members.get? number with
  | some m =>
    if m.connection.pieces.contains index then s
    else
      let (parcel, hub) := s.hub.pack (.has (UInt32.ofNat index))
      { s with hub := hub, announcements := s.announcements ++ [⟨number, parcel⟩] }
  | none => s

/-- These announcements are of a new piece, and reach whoever of these has not told us of it. -/
structure Informs (s : Session) (index : Nat) (numbers : List Nat) (new : List Announcement) :
    Prop where
  carries : s.hub.packetPool.Clean → ∀ a ∈ new, a.parcel.Carries (.has (UInt32.ofNat index))
  reaches : ∀ number ∈ numbers, ∀ m, s.members.get? number = some m →
    m.connection.pieces.contains index = false → ∃ a ∈ new, a.number = number

theorem Informs.skip {index first : Nat} {numbers : List Nat} {new : List Announcement}
    (h : s.Informs index numbers new) (hfirst : ∀ m, s.members.get? first = some m →
      m.connection.pieces.contains index = true) : s.Informs index (first :: numbers) new := by
  refine ⟨h.carries, fun number hnumber m hm hmissing => ?_⟩
  rcases List.mem_cons.mp hnumber with rfl | hrest
  · cases hmissing.symm.trans (hfirst m hm)
  · exact h.reaches number hrest m hm hmissing

theorem informs_foldl (s : Session) (index : Nat) (numbers : List Nat) :
    ∃ new, s.Informs index numbers new ∧ (numbers.foldl (announceTo index) s).board
      = { s.board with announcements := s.announcements ++ new } := by
  induction numbers generalizing s with
  | nil =>
      refine ⟨[], ⟨fun _ a ha => absurd ha List.not_mem_nil,
        fun _ h => absurd h List.not_mem_nil⟩, ?_⟩
      rw [List.append_nil]
      rfl
  | cons first numbers ih =>
      rw [List.foldl_cons, announceTo]
      split
      · next m hm =>
        split
        · next hcontains =>
          obtain ⟨new, hinforms, hboard⟩ := ih s
          refine ⟨new, hinforms.skip fun m' hm' => ?_, hboard⟩
          cases hm.symm.trans hm'
          exact hcontains
        · obtain ⟨new, hinforms, hboard⟩ := ih { s with
            hub := (s.hub.pack (.has (UInt32.ofNat index))).2
            announcements := s.announcements
              ++ [⟨first, (s.hub.pack (.has (UInt32.ofNat index))).1⟩] }
          refine ⟨⟨first, (s.hub.pack (.has (UInt32.ofNat index))).1⟩ :: new,
            ⟨fun hclean a ha => ?_, fun number hnumber m' hm' hmissing => ?_⟩, hboard.trans ?_⟩
          · rcases List.mem_cons.mp ha with rfl | hrest
            · exact Hub.carries_pack hclean _
            · exact hinforms.carries (Hub.bytes_pack hclean (.has (UInt32.ofNat index))).2 a hrest
          · rcases List.mem_cons.mp hnumber with rfl | hrest
            · exact ⟨_, List.mem_cons_self, rfl⟩
            · obtain ⟨a, ha, hnumber⟩ := hinforms.reaches number hrest m' hm' hmissing
              exact ⟨a, List.mem_cons_of_mem _ ha, hnumber⟩
          · show Board.mk _ _ = Board.mk _ _
            rw [List.append_assoc, List.singleton_append]
            rfl
      · next hnone =>
        obtain ⟨new, hinforms, hboard⟩ := ih s
        refine ⟨new, hinforms.skip fun m hm => ?_, hboard⟩
        cases hnone.symm.trans hm

/-- A piece is marked and announced. -/
structure Announces (s : Session) (index : Nat) (new : List Announcement) (s' : Session) : Prop
    extends s.Informs index s.peers.values new where
  lt : index < s.owned.pieceCount
  missing : s.owned.contains index = false
  owned_eq : s'.owned = s.owned.insert index
  board_eq : s'.board = { s.board with announcements := s.announcements ++ new }

theorem board_finishPiece (h : s.finishPiece? = some s') :
    (s'.owned = s.owned ∧ s'.board = s.board) ∨ ∃ index new, s.Announces index new s' := by
  unfold finishPiece? at h
  split at h
  · cases h
  next piece _ =>
  simp only at h
  split at h
  · cases h
    exact Or.inl ⟨rfl, rfl⟩
  cases h
  split
  · unfold markOwned
    split
    · next owned hmark =>
      obtain ⟨hlt, hnew, rfl⟩ := Bitfield.mark_eq_ok_iff.mp hmark
      obtain ⟨new, hinforms, hboard⟩ := informs_foldl (releasePiece { s with
          verifying := none
          storage := _
          owned := s.owned.insert piece.piece
          counters := s.counters.pieceVerified piece.length 0
          hub := { s.hub with blockPool := s.hub.blockPool.giveBackAll piece.blocks } } piece.piece)
        piece.piece s.peers.values
      refine Or.inr ⟨piece.piece, new, ⟨hinforms.carries, hinforms.reaches⟩, hlt, ?_, ?_, hboard⟩
      · have hmissing : (!s.owned.contains piece.piece) = true := hnew.symm
        simpa using hmissing
      · exact congrArg Holdings.owned (holdings_of_outline (outline_announce _ piece.piece))
    · exact Or.inl ⟨rfl, rfl⟩
  · exact Or.inl ⟨rfl, rfl⟩
  · exact Or.inl ⟨rfl, rfl⟩

/-! ### Joining and leaving -/

theorem board_releaseOwned (s : Session) (peerId : Identifier) :
    (s.releaseOwned peerId).board = s.board := by
  unfold releaseOwned
  generalize (s.owners.filter fun _ owner => owner == peerId).keys = indices
  induction indices generalizing s with
  | nil => rfl
  | cons index indices ih => exact ih (s.releasePiece index)

theorem board_closeOut (h : s.closeOut? number = some s') : ∃ m, s.members.get? number = some m
    ∧ m.connection.hasEnded = true
    ∧ s'.board = s.board.put number { line m with requester := .retired } := by
  unfold closeOut? at h
  split at h
  · cases h
  next m hm =>
  split at h
  · cases h
  next hopen =>
  rw [Bool.not_eq_true, Bool.or_eq_false_iff, Bool.not_eq_false'] at hopen
  cases h
  refine ⟨m, hm, hopen.2, ?_⟩
  obtain ⟨hub, hdropped⟩ := dropRequester_eq s m.requester
  rw [hdropped]
  exact (board_releaseOwned _ m.connection.peerId).trans (board_modify hm fun m =>
    { m with requester := .retired, closedOut := true })

theorem board_dropAllPeers (s : Session) : s.dropAllPeers.board = s.board := by
  show (s.peers.values.foldl disconnect s).board = s.board
  generalize s.peers.values = numbers
  induction numbers generalizing s with
  | nil => rfl
  | cons number numbers ih => exact (ih (s.disconnect number)).trans (board_disconnect s number)

theorem board_shutdown (s : Session) :
    s.shutdown.board = { s.board with announcements := [] } := by
  show Board.mk _ _ = Board.mk _ _
  congr 1
  funext n
  have hfound := Table.find?_map_values s.members.entries n fun m : Member =>
    { m with connection := m.connection.disconnect }
  refine (congrArg (Option.map line) hfound).trans ?_
  rw [Option.map_map]
  rfl

end Session

end TorrentCore
