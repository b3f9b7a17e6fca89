import TorrentCore.Proofs.Session.Handling
import TorrentCore.Proofs.Session.Soliciting

/-!
# A session at one end of a link

A `Station` is a session with one of its connections in view. Beside the session it counts the bytes
that the network has carried away from the link of this connection and those that have come to it.
It follows a run of the session in which the network does nothing else to that link, and in which
whoever waits for a place in the queue of the connection gets it in turn: an announcement may go
before a requester that waits only if it waited already when the requester came. What is not said by
the session itself is not said over the connection either.
-/

namespace TorrentCore

instance (m : Member) : Decidable m.Refuses := inferInstanceAs (Decidable (_ ∨ _))

/-- What the network has carried away from a link, and what it has brought to it. -/
def Link.moved? (l l' : Link) : Option (Bytes × Bytes) :=
  match l.outgoing.held.dropSuffix? l'.outgoing.held, l'.incoming.held.dropPrefix? l.incoming.held with
  | some carried, some come => some (carried, come)
  | _, _ => none

theorem Link.moved?_eq_some {l l' : Link} {carried come : Bytes}
    (h : l.moved? l' = some (carried, come)) :
    l.outgoing.held = carried ++ l'.outgoing.held ∧ l'.incoming.held = l.incoming.held ++ come := by
  unfold moved? at h
  split at h
  · next hcarried hcome =>
    cases h
    obtain ⟨_, hout, hsame⟩ := List.dropSuffix?_eq_some_iff.mp hcarried
    obtain ⟨_, hin, hsame'⟩ := List.dropPrefix?_eq_some_iff.mp hcome
    rw [beq_iff_eq] at hsame hsame'
    exact ⟨hsame ▸ hout, hsame' ▸ hin⟩
  · cases h

structure Station where
  session : Session
  /-- The announcements that waited when the requester of the connection took its last step. -/
  ahead : List Announcement
  /-- The bytes that were carried away from the link of the connection. -/
  carried : Bytes
  /-- The bytes that have come to it, with those that had come when it began. -/
  come : Bytes

namespace Station

def begin (s : Session) : Station := ⟨s, [], [], []⟩

/-- The announcement at this position does not go before a requester that waited first. Whoever
gives up need not wait. A session promises no such order by itself: it is assumed that those who
wait for a place in a queue get one in the order in which they began to wait, as the queue documents
it. -/
def inTurn (st : Station) (number position : Nat) (late : Bool) : Bool :=
  match st.session.announcements[position]?, st.session.members.get? number with
  | some a, some m =>
    a.number != number || !m.requester.isSending || (decide m.Refuses && !late)
      || decide (a ∈ st.ahead)
  | _, _ => true

def follow? (st : Station) (number : Nat) (s : Session) : Session.Event → Option Station
  | .own (.request n _) =>
    some { st with session := s, ahead := if n = number then s.announcements else st.ahead }
  | .own (.announce position late) =>
    if st.inTurn number position late then some { st with session := s } else none
  | .connect n link _ _ buffer =>
    if n = number then
      if link.outgoing.held = []
          ∧ st.session.connectionOptions.maxMessage.toNat + lengthWordSize ≤ buffer.capacity
          ∧ buffer.stop ≤ buffer.capacity then
        some ⟨s, [], [], buffer.pending ++ link.incoming.held⟩
      else none
    else some { st with session := s }
  | .farEnd n link =>
    match if n = number then st.session.members.get? number else none with
    | some m => (m.link.moved? link).map fun (carried, come) =>
        ⟨s, st.ahead, st.carried ++ carried, st.come ++ come⟩
    | none => some { st with session := s }
  | .send n _ _ => if n = number then none else some { st with session := s }
  | _ => some { st with session := s }

def step? (number : Nat) (now : Nanoseconds) (event : Session.Event) (st : Station) :
    Option Station :=
  (st.session.happen? now event).bind fun s => st.follow? number s event

def run? (number : Nat) : List (Nanoseconds × Session.Event) → Station → Option Station
  | [], st => some st
  | (now, event) :: rest, st => (st.step? number now event).bind (run? number rest)

variable {st st' : Station} {number : Nat} {s : Session} {now : Nanoseconds}
  {event : Session.Event} {events past : List (Nanoseconds × Session.Event)} {start : Session}

theorem session_follow? (h : st.follow? number s event = some st') : st'.session = s := by
  unfold follow? at h
  repeat' split at h
  all_goals try cases h
  all_goals try rfl
  obtain ⟨_, _, rfl⟩ := Option.map_eq_some_iff.mp h
  rfl

theorem follow?_eq (hevent : event.concerns number = false)
    (h : st.follow? number s event = some st') : st' = { st with session := s } := by
  have hne : ∀ {n : Nat}, (n == number) = false → n ≠ number := fun h => by simpa using h
  unfold follow? at h
  split at h
  · rw [if_neg (hne hevent)] at h
    exact (Option.some.inj h).symm
  · split at h
    · exact (Option.some.inj h).symm
    · cases h
  · rw [if_neg (hne hevent)] at h
    exact (Option.some.inj h).symm
  · rw [if_neg (hne hevent)] at h
    exact (Option.some.inj h).symm
  · rw [if_neg (hne hevent)] at h
    exact (Option.some.inj h).symm
  · exact (Option.some.inj h).symm

theorem follow?_own {action : Session.Action} (h : st.follow? number s (.own action) = some st') :
    st'.session = s ∧ st'.carried = st.carried ∧ st'.come = st.come
      ∧ ((∀ coins, action ≠ .request number coins) → st'.ahead = st.ahead) := by
  cases action with
  | request n coins =>
      cases h
      refine ⟨rfl, rfl, rfl, fun hother => if_neg ?_⟩
      rintro rfl
      exact hother coins rfl
  | announce position late =>
      rw [follow?] at h
      split at h
      · cases h
        exact ⟨rfl, rfl, rfl, fun _ => rfl⟩
      · cases h
  | _ =>
      cases h
      exact ⟨rfl, rfl, rfl, fun _ => rfl⟩

/-- The requester is in line behind the announcements that wait now. -/
theorem follow?_request {coins : List Bool}
    (h : st.follow? number s (.own (.request number coins)) = some st') :
    st'.ahead = s.announcements := by
  cases h
  exact if_pos rfl

theorem inTurn_of_follow? {position : Nat}
    (h : st.follow? number s (.own (.announce position late)) = some st') :
    st.inTurn number position late = true := by
  rw [follow?] at h
  split at h
  · assumption
  · cases h

theorem follow?_connect {link : Link} {address : Address} {handshake : Handshake}
    {buffer : ReadBuffer}
    (h : st.follow? number s (.connect number link address handshake buffer) = some st') :
    link.outgoing.held = []
      ∧ st.session.connectionOptions.maxMessage.toNat + lengthWordSize ≤ buffer.capacity
      ∧ buffer.stop ≤ buffer.capacity
      ∧ st' = ⟨s, [], [], buffer.pending ++ link.incoming.held⟩ := by
  rw [follow?, if_pos rfl] at h
  split at h
  · next hready =>
    cases h
    exact ⟨hready.1, hready.2.1, hready.2.2, rfl⟩
  · cases h

theorem follow?_farEnd {m : Member} {link : Link} (hm : st.session.members.get? number = some m)
    (h : st.follow? number s (.farEnd number link) = some st') :
    ∃ carried come, m.link.outgoing.held = carried ++ link.outgoing.held
      ∧ link.incoming.held = m.link.incoming.held ++ come
      ∧ st' = ⟨s, st.ahead, st.carried ++ carried, st.come ++ come⟩ := by
  rw [follow?, if_pos rfl, hm] at h
  obtain ⟨⟨carried, come⟩, hmoved, rfl⟩ := Option.map_eq_some_iff.mp h
  obtain ⟨hcarried, hcome⟩ := Link.moved?_eq_some hmoved
  exact ⟨carried, come, hcarried, hcome, rfl⟩

theorem carried_of_absent (hnone : st.session.members.get? number = none)
    (hcarried : st.carried = [])
    (h : st.follow? number s event = some st') : st'.carried = [] := by
  unfold follow? at h
  split at h
  · cases h
    exact hcarried
  · split at h <;> cases h
    exact hcarried
  · repeat' split at h
    all_goals cases h
    · rfl
    · exact hcarried
  · rw [hnone, ite_self] at h
    cases h
    exact hcarried
  · split at h <;> cases h
    exact hcarried
  · cases h
    exact hcarried

theorem step?_eq_some (h : st.step? number now event = some st') :
    ∃ s, st.session.happen? now event = some s ∧ st.follow? number s event = some st'
      ∧ st'.session = s := by
  obtain ⟨s, hstep, hfollow⟩ := Option.bind_eq_some_iff.mp h
  exact ⟨s, hstep, hfollow, session_follow? hfollow⟩

theorem run_session (h : run? number events st = some st') :
    Session.run? events st.session = some st'.session := by
  induction events generalizing st with
  | nil =>
      cases h
      rfl
  | cons entry events ih =>
      obtain ⟨now, event⟩ := entry
      obtain ⟨next, hstep, hrest⟩ := Option.bind_eq_some_iff.mp h
      obtain ⟨s, hhappen, _, rfl⟩ := step?_eq_some hstep
      exact Option.bind_eq_some_iff.mpr ⟨next.session, hhappen, ih hrest⟩

theorem run?_append (events later : List (Nanoseconds × Session.Event)) (st : Station) :
    run? number (events ++ later) st = (run? number events st).bind (run? number later) := by
  induction events generalizing st with
  | nil => rfl
  | cons entry events ih =>
      rw [List.cons_append, run?, run?, Option.bind_assoc]
      congr 1
      funext st'
      exact ih st'

/-- What holds at the start and is kept by every event, of which it may depend, holds after every
run. -/
theorem run_history {Q : List (Nanoseconds × Session.Event) → Station → Prop}
    (hstart : Q [] (begin start))
    (hstep : ∀ {past now event st st'}, Session.run? past start = some st.session → Q past st →
      st.step? number now event = some st' → Q (past ++ [(now, event)]) st')
    (hrun : run? number events (begin start) = some st) : Q events st := by
  induction events using List.reverseRecOn generalizing st with
  | nil =>
      cases hrun
      exact hstart
  | append_singleton past entry ih =>
      obtain ⟨now, event⟩ := entry
      rw [run?_append] at hrun
      obtain ⟨before, hbefore, hlast⟩ := Option.bind_eq_some_iff.mp hrun
      obtain ⟨after, hafter, hdone⟩ := Option.bind_eq_some_iff.mp hlast
      cases hdone
      exact hstep (run_session hbefore) (ih hbefore) hafter

/-! ### What is heard -/

variable {e : Endpoint} {m m' : Member} {heard : List Message} {come : Bytes}

/-- The reader of a connection has taken these messages, and whatever the peer has announced stands
in them. -/
structure Hears (start : Session) (past : List (Nanoseconds × Session.Event)) (number : Nat)
    (e : Endpoint) (heard : List Message) (come : Bytes) : Prop where
  listens : Endpoint.Listens start.pieceCount e heard come
  announced : ∀ index, Session.Announced start past number index →
    ∃ m ∈ heard, m.tellsOf index = true

theorem announced_append (hevent : event ≠ .own (.receive number)) {index : Nat}
    (h : Session.Announced start (past ++ [(now, event)]) number index) :
    Session.Announced start past number index := by
  rcases Session.Happened.of_append_singleton h with hbefore | ⟨_, _, _, _, hreceive, _⟩
  · exact hbefore
  · exact absurd hreceive hevent

theorem Hears.apart {e' : Endpoint} (h : Hears start past number e heard come)
    (hkeeps : e.KeepsHearing e') (hevent : event ≠ .own (.receive number)) :
    Hears start (past ++ [(now, event)]) number e' heard come :=
  ⟨h.listens.apart hkeeps, fun index hannounced =>
    h.announced index (announced_append hevent hannounced)⟩

theorem Hears.work {action : Session.Action} {e' : Endpoint}
    (hpast : Session.run? past start = some s) (hm : s.members.get? number = some m)
    (h : Hears start past number (m.endpoint s.hub) heard come)
    (hworks : (m.endpoint s.hub).Works now number action e') :
    ∃ heard, Hears start (past ++ [(now, .own action)]) number e' heard come := by
  cases hworks with
  | receives e' hstep =>
      refine ⟨_, h.listens.receives hstep, fun index hannounced => ?_⟩
      rcases Session.Happened.of_append_singleton hannounced with
        hbefore | ⟨r, _, hr, _, _, e, m', he, htaken, htells⟩
      · obtain ⟨m', hm', htells⟩ := h.announced index hbefore
        exact ⟨m', List.mem_append_left _ hm', htells⟩
      · cases hpast.symm.trans hr
        have hsame : e = m.endpoint s.hub := by
          rw [Session.endpoint?, hm] at he
          exact (Option.some.inj he).symm
        subst hsame
        refine ⟨m', List.mem_append_right _ ?_, htells⟩
        rw [htaken]
        exact List.mem_singleton.mpr rfl
  | transmits e' hstep => exact ⟨heard, h.apart (Endpoint.keepsHearing_transmit hstep) (by simp)⟩
  | stops e' hstep => exact ⟨heard, h.apart (Endpoint.keepsHearing_stop hstep) (by simp)⟩

structure HearsAll (start : Session) (number : Nat) (past : List (Nanoseconds × Session.Event))
    (st : Station) : Prop where
  absent : st.session.members.get? number = none →
    ∀ index, ¬ Session.Announced start past number index
  hears : ∀ m, st.session.members.get? number = some m →
    ∃ heard, Hears start past number (m.endpoint st.session.hub) heard st.come

theorem member_stays (h : st.session.happen? now event = some s)
    (hm : st.session.members.get? number = some m) : ∃ m', s.members.get? number = some m' := by
  obtain ⟨d, hduty, _⟩ :=
    Session.change_of_shift (Session.shift_of_happen h) (Session.duty_of_member hm)
  obtain ⟨m', hm', _⟩ := Session.member_of_duty hduty
  exact ⟨m', hm'⟩

theorem absent_of_absent (h : st.session.happen? now event = some s)
    (hnone : s.members.get? number = none) : st.session.members.get? number = none := by
  by_contra hne
  obtain ⟨m, hm⟩ := Option.ne_none_iff_exists'.mp hne
  obtain ⟨m', hm'⟩ := member_stays h hm
  cases hnone.symm.trans hm'

theorem hears_begun (hpast : Session.run? past start = some st.session)
    (habsent : ∀ index, ¬ Session.Announced start past number index)
    (hnone : st.session.members.get? number = none)
    (hhappen : st.session.happen? now event = some s) (hm' : s.members.get? number = some m')
    (hfollow : st.follow? number s event = some st') :
    ∃ heard, Hears start (past ++ [(now, event)]) number (m'.endpoint s.hub) heard st'.come := by
  have hline := Session.line_of_member hm'
  rcases Session.handled_of_happen hhappen with ⟨_, hhandled⟩ | ⟨_, index, new, hannounces⟩
  · obtain ⟨link, address, handshake, buffer, rfl, hl⟩ :=
      Session.begun_of_handled hnone hhandled hline
    obtain ⟨_, hroom, hstop, rfl⟩ := follow?_connect hfollow
    simp only [Session.line, Connection.line, Session.firstLine, Line.mk.injEq] at hl
    obtain ⟨hoptions, _, _, _, hbuffer, himpression, hlink, _⟩ := hl
    have hcount : st.session.pieceCount = start.pieceCount :=
      congrArg (fun g => g.pieceCount.toNat) (Session.constant_run hpast).1
    have hlistens := Endpoint.Listens.fresh (m'.endpoint s.hub)
      (himpression.trans (congrArg Impression.fresh hcount))
      (show m'.connection.buffer.Ready m'.connection.options.maxMessage from
        hbuffer ▸ hoptions ▸ ⟨hroom, hstop⟩)
    have hcome : (m'.endpoint s.hub).connection.buffer.pending
        ++ (m'.endpoint s.hub).link.incoming.held = buffer.pending ++ link.incoming.held := by
      rw [Member.endpoint, hbuffer, hlink]
    have hevent : Session.Event.connect number link address handshake buffer
      ≠ .own (.receive number) := by simp
    exact ⟨[], hcome ▸ hlistens, fun index hannounced =>
      absurd (announced_append hevent hannounced) (habsent index)⟩
  · rw [hannounces.board_eq] at hline
    have hgone : st.session.board.line number = none := congrArg (Option.map Session.line) hnone
    cases hgone.symm.trans hline

theorem hears_touched {board : Board} (hpast : Session.run? past start = some st.session)
    (hm : st.session.members.get? number = some m)
    (h : Hears start past number (m.endpoint st.session.hub) heard st.come)
    (htouched : st.session.Touched now number m event board)
    (hfollow : st.follow? number s event = some st')
    (hline : board.line number = some (Session.line m')) :
    ∃ heard, Hears start (past ++ [(now, event)]) number (m'.endpoint s.hub) heard st'.come := by
  -- What is put on the board has heard as much as this endpoint.
  have hput : ∀ {e : Endpoint} {r : Requester} {heard : List Message} {come : Bytes},
      Hears start (past ++ [(now, event)]) number e heard come →
      some (e.connection.line e.link r) = some (Session.line m') →
      ∃ heard, Hears start (past ++ [(now, event)]) number (m'.endpoint s.hub) heard come :=
    fun h hl => ⟨_, h.listens.apart (Endpoint.keepsHearing_of_line (Option.some.inj hl).symm),
      h.announced⟩
  have hself : ∀ {l : Line}, (st.session.board.put number l).line number = some (Session.line m') →
      some l = some (Session.line m') := fun hl => Board.line_put_self.symm.trans hl
  cases htouched with
  | apart event board hevent hsame hwaiting =>
      have hother : event ≠ .own (.receive number) := by
        rintro rfl
        exact absurd hevent (by simp [Session.Event.concerns])
      rw [follow?_eq hevent hfollow]
      exact hput (r := m.requester) (h.apart ⟨rfl, rfl, rfl, rfl⟩ hother) (hsame.symm.trans hline)
  | worked action e hworks =>
      obtain ⟨_, _, hcome, _⟩ := follow?_own hfollow
      obtain ⟨heard, hheard⟩ := h.work hpast hm hworks
      rw [hcome]
      exact hput hheard (hself hline)
  | went coins r hgoes =>
      obtain ⟨_, _, hcome, _⟩ := follow?_own hfollow
      rw [hcome]
      exact hput (r := r) (h.apart ⟨rfl, rfl, rfl, rfl⟩ nofun) (hself hline)
  | said coins p after e hphase hsent =>
      obtain ⟨_, _, hcome, _⟩ := follow?_own hfollow
      rw [hcome]
      exact hput (h.apart (Endpoint.keepsHearing_of_sent hsent) nofun) (hself hline)
  | gaveUp action hover hother =>
      obtain ⟨_, _, hcome, _⟩ := follow?_own hfollow
      rw [hcome]
      refine hput (r := .retired) (h.apart ⟨rfl, rfl, rfl, rfl⟩ ?_) (hself hline)
      exact fun heq => hother (Session.Event.own.inj heq)
  | announced position a e ha hnumber hsent =>
      obtain ⟨_, _, hcome, _⟩ := follow?_own hfollow
      rw [hcome]
      exact hput (h.apart (Endpoint.keepsHearing_of_sent hsent) nofun) (hself hline)
  | uploaded r p e hphase hsent =>
      obtain ⟨_, _, hcome, _⟩ := follow?_own hfollow
      rw [hcome]
      exact hput (h.apart (Endpoint.keepsHearing_of_sent hsent) nofun) (hself hline)
  | sent message board =>
      rw [follow?, if_pos rfl] at hfollow
      cases hfollow
  | relinked link =>
      obtain ⟨_, come, _, hheld, rfl⟩ := follow?_farEnd hm hfollow
      have hevent : Session.Event.farEnd number link ≠ .own (.receive number) := nofun
      exact hput (r := m.requester) ⟨h.listens.comes link come hheld, fun index hannounced =>
        h.announced index (announced_append hevent hannounced)⟩ (hself hline)
  | shutdown =>
      cases hfollow
      exact hput (r := m.requester) (h.apart ⟨rfl, rfl, rfl, rfl⟩ nofun)
        ((Session.line_of_member hm).symm.trans hline)

theorem hearsAll_step (hpast : Session.run? past start = some st.session)
    (h : HearsAll start number past st) (hstep : st.step? number now event = some st') :
    HearsAll start number (past ++ [(now, event)]) st' := by
  obtain ⟨s, hhappen, hfollow, hs⟩ := step?_eq_some hstep
  refine ⟨fun hnone index hannounced => ?_, fun m' hm' => ?_⟩
  · rw [hs] at hnone
    have hbefore := absent_of_absent hhappen hnone
    rcases Session.Happened.of_append_singleton hannounced with
      hold | ⟨r, _, hr, _, _, e, _, he, _⟩
    · exact h.absent hbefore index hold
    · cases hpast.symm.trans hr
      rw [Session.endpoint?, hbefore] at he
      cases he
  · rw [hs] at hm' ⊢
    cases hm : st.session.members.get? number with
    | none => exact hears_begun hpast (h.absent hm) hm hhappen hm' hfollow
    | some m =>
        obtain ⟨heard, hheard⟩ := h.hears m hm
        have hline := Session.line_of_member hm'
        rcases Session.handled_of_happen hhappen with
          ⟨_, hhandled⟩ | ⟨rfl, index, new, hannounces⟩
        · exact hears_touched hpast hm hheard (Session.touched_of_handled hm hhandled) hfollow hline
        · refine hears_touched hpast hm hheard
            (.apart _ s.board rfl ?_ (Or.inr fun a ha _ => ?_)) hfollow hline
          · rw [hannounces.board_eq]
            exact Session.line_of_member hm
          · rw [hannounces.board_eq]
            exact List.mem_append_left _ ha

theorem hearsAll_run (hrun : run? number events (begin start) = some st)
    (hempty : start.members = .empty) : HearsAll start number events st := by
  refine run_history (Q := HearsAll start number) ⟨fun _ index hannounced => ?_, fun m hm => ?_⟩
    hearsAll_step hrun
  · obtain ⟨earlier, later, _, _, _, _, hnil, _⟩ := hannounced
    exact absurd hnil (by simp)
  · rw [begin, hempty] at hm
    cases hm

end Station

end TorrentCore
