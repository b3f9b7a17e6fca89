import TorrentCore.Proofs.Session.Board
import TorrentCore.Proofs.Session.Owned

/-!
# What becomes of the switchboard

`Handled` has a case for every event that does not mark a piece. A step of the reader or the writer
changes one line, and so does a packet that comes into its queue: from the requester of the
connection, from the uploader, as an announcement, or from outside. A requester that sends nothing
goes on as `Goes` says. An announcement that was accepted or refused does not wait any more. All
other events leave the board alone.
-/

namespace TorrentCore

/-- A step of the reader or the writer of a connection, or its end. -/
inductive Endpoint.Works (now : Nanoseconds) (number : Nat) (e : Endpoint) :
    Session.Action → Endpoint → Prop
  | receives (e' : Endpoint) (hstep : e.receive? now = some e') :
      Works now number e (.receive number) e'
  | transmits (e' : Endpoint) (hstep : e.transmit? now = some e') :
      Works now number e (.transmit number) e'
  | stops (e' : Endpoint) (hstep : e.stop? = some e') : Works now number e (.stop number) e'

def Member.endpoint (m : Member) (hub : Hub) : Endpoint := ⟨m.connection, hub, m.link⟩

/-- The connection takes no packets any more. -/
def Member.Refuses (m : Member) : Prop :=
  m.connection.cancelled = true ∨ m.connection.queue.closed = true

namespace Session

variable {s s' : Session} {now : Nanoseconds} {late : Bool} {number : Nat} {m : Member}
  {event : Event}

def Event.isAside : Event → Bool
  | .own (.stop _) | .own (.receive _) | .own (.transmit _) | .own (.closeOut _)
  | .own (.request _ _) | .own (.announce _ _) | .connect _ _ _ _ _ | .farEnd _ _ => false
  | _ => true

def firstLine (s : Session) (now : Nanoseconds) (link : Link) (buffer : ReadBuffer) : Line where
  options := s.connectionOptions
  status := .running
  queue := .make s.connectionOptions.queueLength
  writer := .waiting (now + s.connectionOptions.keepAlive)
  buffer := buffer
  impression := .fresh s.pieceCount
  link := link
  requester := .greeting

def boardWith (s : Session) (number : Nat) (e : Endpoint) (r : Requester) : Board :=
  s.board.put number (e.connection.line e.link r)

/-- What becomes of the board with an event that does not mark a piece. -/
inductive Handled (now : Nanoseconds) (s : Session) : Event → Board → Prop
  | quiet (event : Event) (haside : event.isAside = true) : Handled now s event s.board
  | missed (number : Nat) (link : Link) (hnone : s.members.get? number = none) :
      Handled now s (.farEnd number link) s.board
  | worked (action : Action) (number : Nat) (m : Member) (e : Endpoint)
      (hm : s.members.get? number = some m)
      (hworks : (m.endpoint s.hub).Works now number action e) :
      Handled now s (.own action) (s.boardWith number e m.requester)
  | went (number : Nat) (coins : List Bool) (m : Member) (r : Requester)
      (hm : s.members.get? number = some m) (hgoes : s.Goes m r) :
      Handled now s (.own (.request number coins)) (s.board.put number { line m with requester := r })
  | said (number : Nat) (coins : List Bool) (m : Member) (p : Parcel) (after : Requester)
      (e : Endpoint) (hm : s.members.get? number = some m) (hphase : m.requester = .sending p after)
      (hsent : (m.endpoint s.hub).send now (coins.headD false) p = .sent e) :
      Handled now s (.own (.request number coins)) (s.boardWith number e after)
  | gaveUp (action : Action) (number : Nat) (m : Member) (hm : s.members.get? number = some m)
      (hover : m.Refuses ∨ m.connection.hasEnded = true)
      (haction : action = .closeOut number ∨ ∃ coins, action = .request number coins) :
      Handled now s (.own action) (s.board.put number { line m with requester := .retired })
  | announced {late : Bool} (position : Nat) (a : Announcement) (m : Member) (e : Endpoint)
      (ha : s.announcements[position]? = some a) (hm : s.members.get? a.number = some m)
      (hsent : (m.endpoint s.hub).send now late a.parcel = .sent e) :
      Handled now s (.own (.announce position late)) { s.boardWith a.number e m.requester with
        announcements := s.announcements.eraseIdx position }
  | unannounced {late : Bool} (position : Nat) (a : Announcement)
      (ha : s.announcements[position]? = some a)
      (hrefuses : ∀ m, s.members.get? a.number = some m → m.Refuses) :
      Handled now s (.own (.announce position late))
        { s.board with announcements := s.announcements.eraseIdx position }
  | uploaded {late : Bool} (number : Nat) (r : BlockRequest) (p : Parcel) (m : Member) (e : Endpoint)
      (hphase : s.upload = .sending number r p) (hm : s.members.get? number = some m)
      (hsent : (m.endpoint s.hub).send now late p = .sent e) :
      Handled now s (.own (.sendUpload late)) (s.boardWith number e m.requester)
  | sent {late : Bool} (number : Nat) (message : Message) (m : Member) (line : Line)
      (hm : s.members.get? number = some m) :
      Handled now s (.send number message late) (s.board.put number line)
  | joined (number : Nat) (link : Link) (address : Address) (h : Handshake) (buffer : ReadBuffer)
      (hfresh : s.members.get? number = none) :
      Handled now s (.connect number link address h buffer)
        (s.board.put number (s.firstLine now link buffer))
  | relinked (number : Nat) (link : Link) (m : Member) (hm : s.members.get? number = some m) :
      Handled now s (.farEnd number link) (s.board.put number { line m with link := link })
  | shutdown : Handled now s .shutdown { s.board with announcements := [] }

/-! ### The cases -/

theorem handled_connectionStep {action : Action} {step : Endpoint → Option Endpoint}
    (hworks : ∀ e e' : Endpoint, step e = some e' → e.Works now number action e')
    (h : s.connectionStep? number step = some s') : s.Handled now (.own action) s'.board := by
  unfold connectionStep? at h
  split at h
  · cases h
  next e he =>
  obtain ⟨e', he', rfl⟩ := Option.map_eq_some_iff.mp h
  obtain ⟨m, hm, rfl⟩ := Option.map_eq_some_iff.mp he
  rw [board_putEndpoint hm]
  exact .worked action number m e' hm (hworks _ e' he')

theorem board_setRequester_putEndpoint (hm : s.members.get? number = some m) (e : Endpoint)
    (r : Requester) : ((s.putEndpoint number e).setRequester number r).board
      = s.boardWith number e r := by
  have hafter : (s.putEndpoint number e).members.get? number
      = some { m with connection := e.connection, link := e.link } := by
    rw [putEndpoint, Table.get?_modify, if_pos rfl, hm]
    rfl
  rw [board_setRequester hafter, board_putEndpoint hm, Board.put_put]
  rfl

theorem board_setRequester_of_eq (hm : s.members.get? number = some m) (hboard : s'.board = s.board)
    (r : Requester) :
    (s'.setRequester number r).board = s.board.put number { line m with requester := r } := by
  obtain ⟨m', hm', hline⟩ := member_of_line (s := s') (l := line m)
    (by rw [hboard]; exact line_of_member hm)
  rw [board_setRequester hm', hboard, hline]

theorem handled_request {coins : List Bool} (h : s.request? now number coins = some s') :
    s.Handled now (.own (.request number coins)) s'.board := by
  by_cases hsending : ∃ m p after, s.members.get? number = some m ∧ m.requester = .sending p after
  · obtain ⟨m, p, after, hm, hphase⟩ := hsending
    unfold request? at h
    rw [hm] at h
    simp only [hphase] at h
    split at h
    · cases h
    split at h
    · next sent hsent =>
      cases h
      obtain ⟨m', e, hm', hdelivered, rfl⟩ := board_of_sent hsent
      cases hm.symm.trans hm'
      rw [board_setRequester_putEndpoint hm]
      exact .said number coins m p after e hm hphase hdelivered
    · next refused hrefused =>
      cases h
      obtain ⟨hboard, hrefuses⟩ := board_of_refused hrefused
      rw [board_disconnect, board_setRequester_of_eq hm hboard]
      exact .gaveUp _ number m hm (Or.inl (hrefuses m hm)) (Or.inr ⟨coins, rfl⟩)
    · cases h
  · have hmember : ∃ m, s.members.get? number = some m := by
      unfold request? at h
      split at h
      · cases h
      · next m hm => exact ⟨m, hm⟩
    obtain ⟨m, hm⟩ := hmember
    obtain ⟨r, hgoes, hboard⟩ := goesOn_request hm (fun p after hphase =>
      hsending ⟨m, p, after, hm, hphase⟩) h
    rw [hboard]
    exact .went number coins m r hm hgoes

theorem handled_closeOut (h : s.closeOut? number = some s') :
    s.Handled now (.own (.closeOut number)) s'.board := by
  obtain ⟨m, hm, hended, hboard⟩ := board_closeOut h
  rw [hboard]
  exact .gaveUp _ number m hm (Or.inr hended) (Or.inl rfl)

theorem board_erase (s : Session) (rest : List Announcement) :
    board { s with announcements := rest } = { s.board with announcements := rest } := rfl

theorem handled_sendAnnouncement {position : Nat}
    (h : s.sendAnnouncement? now late position = some s') :
    s.Handled now (.own (.announce position late)) s'.board := by
  unfold sendAnnouncement? at h
  split at h
  · cases h
  next a ha =>
  simp only at h
  split at h
  · next sent hsent =>
    cases h
    obtain ⟨m, e, hm, hdelivered, rfl⟩ := board_of_sent hsent
    rw [board_erase, board_putEndpoint hm]
    exact .announced position a m e ha hm hdelivered
  · next refused hrefused =>
    cases h
    obtain ⟨hboard, hrefuses⟩ := board_of_refused hrefused
    rw [board_erase, hboard]
    exact .unannounced position a ha hrefuses
  · cases h

theorem handled_sendUpload (h : s.sendUpload? now late = some s') :
    s.Handled now (.own (.sendUpload late)) s'.board := by
  unfold sendUpload? at h
  split at h
  case h_2 => cases h
  next number r p hphase =>
  split at h
  · next sent hsent =>
    cases h
    obtain ⟨m, e, hm, hdelivered, rfl⟩ := board_of_sent hsent
    have hboard := board_putEndpoint hm e
    rw [board_noteUploaded]
    exact hboard ▸ .uploaded number r p m e hphase hm hdelivered
  · next refused hrefused =>
    cases h
    exact (board_of_refused hrefused).1 ▸ .quiet _ rfl
  · cases h

theorem handled_send {message : Message} (h : s.send? now late number message = some s') :
    s.Handled now (.send number message late) s'.board := by
  unfold send? at h
  split at h
  · next sent hsent =>
    cases h
    obtain ⟨m, e, hm, _, rfl⟩ := board_of_sent hsent
    have hboard := board_putEndpoint hm e
    rw [hboard]
    exact .sent number message m _ hm
  · next refused hrefused =>
    cases h
    exact (board_of_refused hrefused).1 ▸ .quiet _ rfl
  · cases h

theorem handled_addPeer {link : Link} {address : Address} {h : Handshake} {buffer : ReadBuffer}
    (hfresh : s.members.get? number = none)
    (hadd : s.addPeer now number link address h buffer = .ok s') :
    s.Handled now (.connect number link address h buffer) s'.board := by
  unfold addPeer at hadd
  split at hadd
  · cases hadd
  split at hadd
  · cases hadd
  cases hadd
  refine cast (congrArg _ ?_) (Handled.joined number link address h buffer hfresh)
  show Board.mk _ _ = Board.mk _ _
  congr 1
  funext n
  rw [Table.get?_insert]
  split <;> rfl

/-! ### Events -/

/-- An event marks a piece and announces it, or it is one of the cases. -/
theorem handled_of_happen (h : s.happen? now event = some s') :
    (s'.owned = s.owned ∧ s.Handled now event s'.board)
      ∨ (event = .own .finishPiece ∧ ∃ index new, s.Announces index new s') := by
  by_cases hfinish : event = .own .finishPiece
  · subst hfinish
    rcases board_finishPiece h with ⟨howned, hboard⟩ | hannounces
    · exact Or.inl ⟨howned, hboard ▸ .quiet _ rfl⟩
    · exact Or.inr ⟨rfl, hannounces⟩
  refine Or.inl ⟨owned_eq_of_happen h hfinish, ?_⟩
  have hquiet : ∀ {event : Event}, event.isAside = true → s'.board = s.board →
      s.Handled now event s'.board := fun haside hboard => hboard ▸ .quiet _ haside
  cases event with
  | own action =>
      cases action with
      | stop number => exact handled_connectionStep (fun _ e' => .stops e') h
      | receive number => exact handled_connectionStep (fun _ e' => .receives e') h
      | transmit number => exact handled_connectionStep (fun _ e' => .transmits e') h
      | closeOut number => exact handled_closeOut h
      | request number coins => exact handled_request h
      | announce position late => exact handled_sendAnnouncement h
      | consume => exact hquiet rfl (board_consume h)
      | finishPiece => exact absurd rfl hfinish
      | pickUpload => exact hquiet rfl (board_pickUpload h)
      | readUpload => exact hquiet rfl (board_readUpload h)
      | sendUpload late => exact handled_sendUpload h
      | expire =>
          rw [happen?, act?, expire?] at h
          split at h
          · cases h
          · obtain ⟨_, _, rfl⟩ := Option.map_eq_some_iff.mp h
            exact hquiet rfl rfl
  | connect number link address handshake buffer =>
      rw [happen?] at h
      split at h
      · cases h
      next hfresh =>
      rw [Option.not_isSome_iff_eq_none] at hfresh
      cases hadd : s.addPeer now number link address handshake buffer with
      | ok added =>
          rw [hadd] at h
          cases h
          exact handled_addPeer hfresh hadd
      | error e =>
          rw [hadd] at h
          cases h
  | farEnd number link =>
      cases h
      cases hm : s.members.get? number with
      | none =>
          rw [board_modify_none hm]
          exact .missed number link hm
      | some m =>
          rw [board_modify hm fun m => { m with link := link }]
          exact .relinked number link m hm
  | disconnect number =>
      cases h
      exact hquiet rfl (board_disconnect s number)
  | send number m late => exact handled_send h
  | dropAllPeers =>
      cases h
      exact hquiet rfl (board_dropAllPeers s)
  | addAddress a =>
      cases h
      refine hquiet rfl ?_
      unfold addAddress
      split <;> rfl
  | shutdown =>
      cases h
      rw [board_shutdown]
      exact .shutdown
  | pause | resume | removeFinishedPeers | startConnecting a | doneConnecting a =>
      cases h
      exact hquiet rfl rfl

/-! ### One line -/

/-- The event is a step of the reader or the requester of this connection, comes from its far end or
from outside, or begins it. -/
def Event.concerns (number : Nat) : Event → Bool
  | .own (.receive n) | .own (.request n _) | .connect n _ _ _ _ | .farEnd n _
  | .send n _ _ => n == number
  | _ => false

/-- What becomes of the line of a connection, and of what is announced to it. -/
inductive Touched (now : Nanoseconds) (s : Session) (number : Nat) (m : Member) :
    Event → Board → Prop
  | apart (event : Event) (board : Board) (hevent : event.concerns number = false)
      (hline : board.line number = some (line m))
      (hwaiting : m.Refuses ∨ ∀ a ∈ s.announcements, a.number = number → a ∈ board.announcements) :
      Touched now s number m event board
  | worked (action : Action) (e : Endpoint) (hworks : (m.endpoint s.hub).Works now number action e) :
      Touched now s number m (.own action) (s.boardWith number e m.requester)
  | went (coins : List Bool) (r : Requester) (hgoes : s.Goes m r) :
      Touched now s number m (.own (.request number coins))
        (s.board.put number { line m with requester := r })
  | said (coins : List Bool) (p : Parcel) (after : Requester) (e : Endpoint)
      (hphase : m.requester = .sending p after)
      (hsent : (m.endpoint s.hub).send now (coins.headD false) p = .sent e) :
      Touched now s number m (.own (.request number coins)) (s.boardWith number e after)
  | gaveUp (action : Action) (hover : m.Refuses ∨ m.connection.hasEnded = true)
      (hother : action ≠ .receive number) :
      Touched now s number m (.own action) (s.board.put number { line m with requester := .retired })
  | announced {late : Bool} (position : Nat) (a : Announcement) (e : Endpoint)
      (ha : s.announcements[position]? = some a) (hnumber : a.number = number)
      (hsent : (m.endpoint s.hub).send now late a.parcel = .sent e) :
      Touched now s number m (.own (.announce position late)) { s.boardWith number e m.requester with
        announcements := s.announcements.eraseIdx position }
  | uploaded {late : Bool} (r : BlockRequest) (p : Parcel) (e : Endpoint)
      (hphase : s.upload = .sending number r p)
      (hsent : (m.endpoint s.hub).send now late p = .sent e) :
      Touched now s number m (.own (.sendUpload late)) (s.boardWith number e m.requester)
  | sent {late : Bool} (message : Message) (board : Board) :
      Touched now s number m (.send number message late) board
  | relinked (link : Link) : Touched now s number m (.farEnd number link)
      (s.board.put number { line m with link := link })
  | shutdown : Touched now s number m .shutdown { s.board with announcements := [] }

theorem mem_eraseIdx_of_ne {α : Type} {xs : List α} {position : Nat} {x y : α}
    (hy : xs[position]? = some y) (hx : x ∈ xs) (hne : x ≠ y) : x ∈ xs.eraseIdx position := by
  obtain ⟨i, hi⟩ := List.mem_iff_getElem?.mp hx
  refine List.mem_eraseIdx_iff_getElem?.mpr ⟨i, ?_, hi⟩
  rintro rfl
  exact hne (Option.some.inj (hi.symm.trans hy))

/-- A step on one line is a step on this line, or on the line of another connection. -/
theorem touched_put {n : Nat} {m' : Member} {l : Line} (hm : s.members.get? number = some m)
    (hm' : s.members.get? n = some m')
    (hthis : n = number → m' = m → s.Touched now number m event (s.board.put n l))
    (hevent : n ≠ number → event.concerns number = false) :
    s.Touched now number m event (s.board.put n l) := by
  by_cases hn : n = number
  · exact hthis hn (Option.some.inj (hm'.symm.trans (hn ▸ hm)))
  · exact .apart _ _ (hevent hn) ((Board.line_put_of_ne (Ne.symm hn)).trans (line_of_member hm))
      (Or.inr fun _ ha _ => ha)

theorem touched_of_handled {board : Board} (hm : s.members.get? number = some m)
    (h : s.Handled now event board) : s.Touched now number m event board := by
  have hline := line_of_member hm
  have hsame : ∀ {event : Event}, event.concerns number = false →
      s.Touched now number m event s.board := fun hevent =>
    .apart _ _ hevent hline (Or.inr fun _ ha _ => ha)
  have hapart : ∀ {n : Nat}, n ≠ number → (n == number) = false := beq_eq_false_iff_ne.mpr
  cases h with
  | quiet event haside =>
      cases event with
      | own action =>
          cases action with
          | receive | request => cases haside
          | _ => exact hsame rfl
      | send n message late =>
          by_cases hn : n = number
          · exact hn ▸ .sent message _
          · exact hsame (hapart hn)
      | connect | farEnd => cases haside
      | _ => exact hsame rfl
  | missed n link hnone =>
      refine hsame (hapart ?_)
      rintro rfl
      cases hm.symm.trans hnone
  | worked action n m' e hm' hworks =>
      refine touched_put hm hm' ?_ fun hn => ?_
      · rintro rfl rfl
        exact .worked action e hworks
      · cases hworks with
        | receives => exact hapart hn
        | transmits | stops => rfl
  | went n coins m' r hm' hgoes =>
      refine touched_put hm hm' ?_ hapart
      rintro rfl rfl
      exact .went coins r hgoes
  | said n coins m' p after e hm' hphase hsent =>
      refine touched_put hm hm' ?_ hapart
      rintro rfl rfl
      exact .said coins p after e hphase hsent
  | gaveUp action n m' hm' hover haction =>
      refine touched_put hm hm' ?_ fun hn => ?_
      · rintro rfl rfl
        refine .gaveUp action hover ?_
        rcases haction with rfl | ⟨coins, rfl⟩ <;> exact nofun
      · rcases haction with rfl | ⟨coins, rfl⟩
        · rfl
        · exact hapart hn
  | announced position a m' e ha hm' hsent =>
      by_cases hn : a.number = number
      · rw [hn] at hm' ⊢
        cases hm.symm.trans hm'
        exact .announced position a e ha hn hsent
      · refine .apart _ _ rfl ((Board.line_put_of_ne (Ne.symm hn)).trans hline) (Or.inr ?_)
        exact fun a' ha' hnumber => mem_eraseIdx_of_ne ha ha' fun heq => hn (heq ▸ hnumber)
  | unannounced position a ha hrefuses =>
      refine .apart _ _ rfl hline ?_
      by_cases hn : a.number = number
      · exact Or.inl (hrefuses m (hn ▸ hm))
      · exact Or.inr fun a' ha' hnumber => mem_eraseIdx_of_ne ha ha' fun heq => hn (heq ▸ hnumber)
  | uploaded n r p m' e hphase hm' hsent =>
      refine touched_put hm hm' ?_ fun _ => rfl
      rintro rfl rfl
      exact .uploaded r p e hphase hsent
  | sent n message m' l hm' =>
      refine touched_put hm hm' ?_ hapart
      rintro rfl _
      exact .sent message _
  | joined n link address h buffer hfresh =>
      have hn : n ≠ number := by
        rintro rfl
        cases hm.symm.trans hfresh
      exact .apart _ _ (hapart hn) ((Board.line_put_of_ne hn.symm).trans hline)
        (Or.inr fun _ ha _ => ha)
  | relinked n link m' hm' =>
      refine touched_put hm hm' ?_ hapart
      rintro rfl rfl
      exact .relinked link
  | shutdown => exact .shutdown

theorem begun_of_handled {board : Board} {l : Line} (hnone : s.members.get? number = none)
    (h : s.Handled now event board) (hl : board.line number = some l) :
    ∃ link address handshake buffer, event = .connect number link address handshake buffer
      ∧ l = s.firstLine now link buffer := by
  have hline : s.board.line number = none := congrArg (Option.map line) hnone
  have hput : ∀ {n : Nat} {m : Member} {l' : Line}, s.members.get? n = some m →
      (s.board.put n l').line number ≠ some l := by
    intro n m l' hm hl
    have hn : number ≠ n := by
      rintro rfl
      cases hm.symm.trans hnone
    rw [Board.line_put_of_ne hn, hline] at hl
    cases hl
  cases h with
  | quiet | missed | unannounced | shutdown => cases hline.symm.trans hl
  | worked action n m e hm hworks => exact absurd hl (hput hm)
  | went n coins m r hm hgoes => exact absurd hl (hput hm)
  | said n coins m p after e hm hphase hsent => exact absurd hl (hput hm)
  | gaveUp action n m hm hover haction => exact absurd hl (hput hm)
  | announced position a m e ha hm hsent => exact absurd hl (hput hm)
  | uploaded n r p m e hphase hm hsent => exact absurd hl (hput hm)
  | sent n message m l' hm => exact absurd hl (hput hm)
  | relinked n link m hm => exact absurd hl (hput hm)
  | joined n link address handshake buffer hfresh =>
      by_cases hn : number = n
      · subst hn
        rw [Board.line_put_self] at hl
        exact ⟨link, address, handshake, buffer, rfl, (Option.some.inj hl).symm⟩
      · rw [Board.line_put_of_ne hn, hline] at hl
        cases hl

end Session

end TorrentCore
