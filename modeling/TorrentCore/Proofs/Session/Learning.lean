import TorrentCore.Proofs.Session.Greeting
import TorrentCore.Proofs.Session.Station

/-!
# What peers learn

Once its peer was greeted, a connection has told of every piece that is owned, or it waits to be
announced, or the peer announced it before it was marked, in which case nobody tells the peer. Of
what was told the far end hears the first part, and all of it when nothing is on its way any more.
-/

namespace TorrentCore

namespace Station

open Session

variable {start s : Session} {past : List (Nanoseconds × Event)} {now : Nanoseconds} {late : Bool}
  {event : Event} {number index : Nat} {st st' : Station} {accepted : List Message} {m m' : Member}
  {board : Board} {ownId : Identifier} {t : TorrentSource} {connectionOptions : ConnectionOptions}
  {policy : ReservationPolicy}

/-- The announcement of the piece waited when the requester took its last step. -/
def Ahead (st : Station) (number index : Nat) : Prop :=
  ∃ a ∈ st.ahead, a.number = number ∧ a.parcel.Carries (.has (UInt32.ofNat index))

/-- What has been accepted from the requester, the uploader and those who announce. All of it is
accounted for, and the requester knows what is still to be told as long as the connection is
live. -/
structure Tells (start : Session) (past : List (Nanoseconds × Event)) (number : Nat) (st : Station)
    (m : Member) (accepted : List Message) : Prop where
  outgoing : (m.endpoint st.session.hub).Outgoing accepted st.carried
  closes : (m.endpoint st.session.hub).ClosesInTime
  candid : Candid st.session.owned accepted
  stance : Stance (m.isLive = true) (Covers start past st.session number) st.session.owned
    (st.Ahead number) accepted m.requester

theorem voice_of_line {e : Endpoint} {r : Requester} {carried : Bytes}
    (h : e.Outgoing accepted carried) (hcloses : e.ClosesInTime)
    (hclean : s.hub.packetPool.Clean) (hline : e.connection.line e.link r = Session.line m') :
    (m'.endpoint s.hub).Outgoing accepted carried ∧ (m'.endpoint s.hub).ClosesInTime := by
  have haside : e.Aside (m'.endpoint s.hub) := Endpoint.aside_of_line hline.symm fun _ => hclean
  exact ⟨h.of_keeps haside.toKeepsOutgoing, hcloses.of_keeps haside.toKeepsOutgoing⟩

theorem voice_of_works {e e' : Endpoint} {action : Action} {carried : Bytes}
    (h : e.Outgoing accepted carried) (hcloses : e.ClosesInTime)
    (hworks : e.Works now number action e') : e'.Outgoing accepted carried ∧ e'.ClosesInTime := by
  cases hworks with
  | receives e' hstep => exact ⟨h.receive hstep, hcloses.receive hstep⟩
  | transmits e' hstep => exact ⟨h.transmit hstep, hcloses.transmit hstep⟩
  | stops e' hstep =>
      refine ⟨?_, .stop hstep⟩
      unfold Endpoint.stop? at hstep
      split at hstep
      · cases hstep
        exact h.finish _
      · cases hstep

theorem Tells.open (h : Tells start past number st m accepted) (hlive : m.isLive = true) :
    ¬ m.Refuses := by
  have hcloses : m.connection.queue.closed = !m.connection.isRunning := h.closes
  rw [Member.isLive, Bool.and_eq_true, Bool.not_eq_true'] at hlive
  rw [hlive.1] at hcloses
  rintro (hcancelled | hclosed)
  · cases hlive.2.symm.trans hcancelled
  · cases hcloses.symm.trans hclosed

theorem Tells.not_isLive (h : Tells start past number st m accepted)
    (hover : m.Refuses ∨ m.connection.hasEnded = true) : ¬ m.isLive = true := by
  intro hlive
  rcases hover with hrefuses | hended
  · exact h.open hlive hrefuses
  · rw [Member.isLive, Connection.isRunning_of_hasEnded hended] at hlive
    cases hlive

theorem exists_tells_of_line {e : Endpoint} {r : Requester}
    (houtgoing : e.Outgoing accepted st.carried) (hcloses : e.ClosesInTime)
    (hcandid : Candid st.session.owned accepted) (hclean : st.session.hub.packetPool.Clean)
    (hline : e.connection.line e.link r = Session.line m)
    (hstance : Stance (m.isLive = true) (Covers start past st.session number) st.session.owned
      (st.Ahead number) accepted r) :
    ∃ accepted, Tells start past number st m accepted := by
  obtain ⟨houtgoing', hcloses'⟩ := voice_of_line houtgoing hcloses hclean hline
  rw [show r = m.requester from congrArg Line.requester hline] at hstance
  exact ⟨accepted, houtgoing', hcloses', hcandid, hstance⟩

section Hear

variable {live : Prop}

/-- How the requester stands after something was said by somebody else. -/
theorem Tells.hear (h : Tells start past number st m accepted) (hlive : live → m.isLive = true)
    (howned : st'.session.owned = st.session.owned) (hahead : st'.ahead = st.ahead)
    (said : List Message)
    (hturn : m.requester.isSending = true → ∀ index < st.session.owned.pieceCount,
      TellOf said index → st.Ahead number index)
    (hwaits : live → ∀ index < st.session.owned.pieceCount, st.session.Waits number index →
      st'.session.Waits number index ∨ TellOf said index) :
    Stance live (Covers start (past ++ [(now, event)]) st'.session number) st'.session.owned
      (st'.Ahead number) (accepted ++ said) m.requester := by
  refine h.stance.hear said hlive (by rw [howned]) (fun index h => howned ▸ h)
    (fun hlive' told told' htold hsaid hcovers => hcovers.later howned htold fun index hindex h =>
      (hwaits hlive' index hindex h).imp_right (hsaid index hindex)) (fun index h => ?_) hturn
  rw [Ahead, hahead] at h
  exact h

theorem Tells.stay (h : Tells start past number st m accepted) (hlive : live → m.isLive = true)
    (howned : st'.session.owned = st.session.owned) (hahead : st'.ahead = st.ahead)
    (hwaits : live → ∀ index, st.session.Waits number index → st'.session.Waits number index) :
    Stance live (Covers start (past ++ [(now, event)]) st'.session number) st'.session.owned
      (st'.Ahead number) accepted m.requester := by
  have hstance : Stance live (Covers start (past ++ [(now, event)]) st'.session number)
      st'.session.owned (st'.Ahead number) (accepted ++ []) m.requester :=
    h.hear hlive howned hahead [] (fun _ index _ htold => absurd htold (not_tellOf_nil index))
      fun hlive' index _ h => Or.inl (hwaits hlive' index h)
  rwa [List.append_nil] at hstance

/-- An announcement that is accepted while the requester waits was in line before it. -/
theorem mem_ahead_of_sent {position : Nat} {a : Announcement} {e : Endpoint}
    (hm : st.session.members.get? number = some m)
    (ha : st.session.announcements[position]? = some a) (hnumber : a.number = number)
    (hturn : st.inTurn number position late = true)
    (hsent : (m.endpoint st.session.hub).send now late a.parcel = .sent e)
    (hsending : m.requester.isSending = true) : a ∈ st.ahead := by
  obtain ⟨hkept, hopen⟩ := Endpoint.open_of_sent hsent
  have hwould : ¬ (m.Refuses ∧ late = false) := by
    rintro ⟨hrefuses, rfl⟩
    rcases hrefuses with hcancelled | hclosed
    · cases hcancelled.symm.trans (hkept.resolve_right Bool.false_ne_true)
    · cases hclosed.symm.trans hopen
  rw [inTurn, ha, hm] at hturn
  simpa [hnumber, hsending, hwould] using hturn

/-- How the requester stands when an announcement was accepted in its turn. -/
theorem Tells.hear_announced (hequipped : Equipped start past st.session)
    (hm : st.session.members.get? number = some m) (h : Tells start past number st m accepted)
    (hlive : live → m.isLive = true) (howned : st'.session.owned = st.session.owned)
    (hahead : st'.ahead = st.ahead) {position : Nat} {a : Announcement} {e : Endpoint}
    (ha : st.session.announcements[position]? = some a) (hnumber : a.number = number)
    (hrest : st'.session.announcements = st.session.announcements.eraseIdx position)
    (hturn : st.inTurn number position late = true)
    (hsent : (m.endpoint st.session.hub).send now late a.parcel = .sent e)
    (hindex : index < st.session.owned.pieceCount)
    (hcarries : a.parcel.Carries (.has (UInt32.ofNat index)))
    (hsame : ∀ other < st.session.owned.pieceCount,
      a.parcel.Carries (.has (UInt32.ofNat other)) → other = index) :
    Stance live (Covers start (past ++ [(now, event)]) st'.session number) st'.session.owned
      (st'.Ahead number) (accepted ++ [.has (UInt32.ofNat index)]) m.requester := by
  have htold : ∀ other, TellOf [.has (UInt32.ofNat index)] other ↔ other = index := by
    intro other
    rw [tellOf_singleton, tellsOf_has (Nat.lt_of_lt_of_le hindex hequipped.pieceCount_le),
      decide_eq_true_eq]
  refine h.hear hlive howned hahead _ (fun hsending other _ htells => ?_)
    fun _ other hother hwaits => ?_
  · rw [(htold other).mp htells]
    exact ⟨a, mem_ahead_of_sent hm ha hnumber hturn hsent hsending, hnumber, hcarries⟩
  · obtain ⟨a', ha', hnumber', hcarries'⟩ := hwaits
    by_cases heq : a' = a
    · rw [heq] at hcarries'
      exact Or.inr ((htold other).mpr (hsame other hother hcarries'))
    · exact Or.inl ⟨a', hrest ▸ mem_eraseIdx_of_ne ha ha' heq, hnumber', hcarries'⟩

end Hear

theorem tells_touched (hstart : Starts ownId t connectionOptions policy start)
    (hframes : t.options.maxRequest.toNat + 9 < 4294967296)
    (hpast : Session.run? past start = some st.session)
    (hm : st.session.members.get? number = some m) (h : Tells start past number st m accepted)
    (howned : s.owned = st.session.owned) (hclean : s.hub.packetPool.Clean)
    (hlive : m'.isLive = true → m.isLive = true ∧ event ≠ .shutdown)
    (hboard : s.board = board) (htouched : st.session.Touched now number m event board)
    (hfollow : st.follow? number s event = some st')
    (hline : board.line number = some (Session.line m')) :
    ∃ accepted, Tells start (past ++ [(now, event)]) number st' m' accepted := by
  have hequipped := equipped_run hstart hpast
  obtain rfl := session_follow? hfollow
  have hannouncements : st'.session.announcements = board.announcements :=
    congrArg Board.announcements hboard
  have hself : ∀ {l : Line}, (st.session.board.put number l).line number = some (Session.line m') →
      l = Session.line m' := fun hl => Option.some.inj (Board.line_put_self.symm.trans hl)
  have hcandid : ∀ {messages : List Message}, Candid st.session.owned messages →
      Candid st'.session.owned messages := fun h => howned ▸ h
  have hkeptLive : m'.isLive = true → m.isLive = true := fun hlive' => (hlive hlive').1
  have hwaits : board.announcements = st.session.announcements → m'.isLive = true → ∀ index,
      st.session.Waits number index → st'.session.Waits number index := by
    intro hsame _ index h
    rw [Waits, hannouncements, hsame]
    exact h
  -- After its own step the requester is behind all that waits.
  have hbehind : ∀ {coins : List Bool}, event = .own (.request number coins) →
      st'.Ahead number = st'.session.Waits number := by
    rintro coins rfl
    funext index
    rw [Ahead, follow?_request hfollow, Waits]
  cases htouched with
  | apart event board hevent hsame hwaiting =>
      have hst' := follow?_eq hevent hfollow
      refine exists_tells_of_line (e := m.endpoint st.session.hub) (r := m.requester)
        (hst' ▸ h.outgoing) h.closes (hcandid h.candid) hclean
        (Option.some.inj (hsame.symm.trans hline)) (h.stay hkeptLive howned (by rw [hst']) ?_)
      rintro hlive' index ⟨a, ha, hnumber, hcarries⟩
      have hkept := hwaiting.resolve_left (h.open (hlive hlive').1)
      exact ⟨a, hannouncements ▸ hkept a ha hnumber, hnumber, hcarries⟩
  | worked action e hworks =>
      obtain ⟨_, hcarried, _, hahead⟩ := follow?_own hfollow
      obtain ⟨houtgoing, hcloses⟩ := voice_of_works h.outgoing h.closes hworks
      refine exists_tells_of_line (hcarried ▸ houtgoing) hcloses (hcandid h.candid) hclean
        (hself hline) (h.stay hkeptLive howned (hahead ?_) (hwaits rfl))
      cases hworks <;> simp
  | went coins r hgoes =>
      obtain ⟨_, hcarried, _, _⟩ := follow?_own hfollow
      refine exists_tells_of_line (e := m.endpoint st.session.hub) (hcarried ▸ h.outgoing) h.closes
        (hcandid h.candid) hclean (hself hline) ?_
      rw [hbehind rfl]
      exact stance_of_goes hequipped h.candid h.stance hkeptLive hgoes howned hannouncements
  | said coins p after e hphase hsent =>
      obtain ⟨_, hcarried, _, _⟩ := follow?_own hfollow
      obtain ⟨message, hbytes, hsaid, hstance⟩ := stance_of_said hequipped h.candid
        (hphase ▸ h.stance) hkeptLive howned hannouncements
      refine exists_tells_of_line (hcarried ▸ h.outgoing.send hbytes hsent) (h.closes.send hsent)
        (hcandid hsaid) hclean (hself hline) ?_
      rw [hbehind rfl]
      exact hstance
  | gaveUp action hover hother =>
      obtain ⟨_, hcarried, _, _⟩ := follow?_own hfollow
      exact exists_tells_of_line (e := m.endpoint st.session.hub) (r := .retired)
        (hcarried ▸ h.outgoing) h.closes (hcandid h.candid) hclean (hself hline)
        (.settled .retired rfl fun hlive' => absurd (hkeptLive hlive') (h.not_isLive hover))
  | announced position a e ha hnumber hsent =>
      obtain ⟨_, hcarried, _, hahead⟩ := follow?_own hfollow
      obtain ⟨index, hindex, htrue, hcarries, hsame⟩ :=
        hequipped.announced (List.mem_of_getElem? ha)
      exact exists_tells_of_line (hcarried ▸ h.outgoing.send hcarries.bytes_eq hsent)
        (h.closes.send hsent)
        (hcandid (h.candid.append_has hindex hequipped.pieceCount_le htrue)) hclean (hself hline)
        (h.hear_announced hequipped hm hkeptLive howned (hahead (by simp)) ha hnumber
          hannouncements (inTurn_of_follow? hfollow) hsent hindex hcarries hsame)
  | uploaded r p e hphase hsent =>
      obtain ⟨_, hcarried, _, hahead⟩ := follow?_own hfollow
      obtain ⟨block, hfetched, _, hbytes⟩ := hequipped.sending number r p hphase
      refine exists_tells_of_line (hcarried ▸ h.outgoing.send hbytes hsent) (h.closes.send hsent)
        (hcandid (h.candid.append_silent (isFramed_of_fetched hstart hframes hfetched) (by simp)
          (fun _ => rfl) fun _ => rfl)) hclean (hself hline) ?_
      refine h.hear hkeptLive howned (hahead (by simp)) _ (fun _ index _ htells => ?_)
        fun hlive' index _ h => Or.inl (hwaits rfl hlive' index h)
      cases tellOf_singleton.mp htells
  | sent message board =>
      rw [follow?, if_pos rfl] at hfollow
      cases hfollow
  | relinked link =>
      obtain ⟨carried, come, hheld, _, hst'⟩ := follow?_farEnd hm hfollow
      refine exists_tells_of_line (e := { m.endpoint st.session.hub with link := link })
        (r := m.requester) ?_ h.closes (hcandid h.candid) hclean (hself hline)
        (h.stay hkeptLive howned (by rw [hst']) (hwaits rfl))
      rw [hst']
      exact h.outgoing.carry hheld
  | shutdown =>
      have hapart : Event.shutdown.concerns number = false := rfl
      have hst' := follow?_eq hapart hfollow
      exact exists_tells_of_line (e := m.endpoint st.session.hub) (r := m.requester)
        (hst' ▸ h.outgoing) h.closes (hcandid h.candid) hclean
        (Option.some.inj ((line_of_member hm).symm.trans hline))
        (h.stay hkeptLive howned (by rw [hst']) fun hlive' => absurd rfl (hlive hlive').2)

theorem tells_gained {new : List Announcement} (hequipped : Equipped start past st.session)
    (hpast : Session.run? past start = some st.session)
    (hstep : st.session.happen? now (.own .finishPiece) = some s)
    (hm : st.session.members.get? number = some m) (h : Tells start past number st m accepted)
    (hclean : s.hub.packetPool.Clean) (hlive : m'.isLive = true → m.isLive = true)
    (hannounces : st.session.Announces index new s) (hline : Session.line m = Session.line m') :
    Tells start (past ++ [(now, .own .finishPiece)]) number { st with session := s } m' accepted := by
  have hgains := gains_happen hstep
  have hcount : s.owned.pieceCount = st.session.owned.pieceCount := by
    rw [hannounces.owned_eq]
    rfl
  have hgrows : ∀ index, st.session.owned.contains index = true → s.owned.contains index = true :=
    fun _ => hgains.contains hequipped.fits
  obtain ⟨houtgoing, hcloses⟩ := voice_of_line (e := m.endpoint st.session.hub) (r := m.requester)
    h.outgoing h.closes hclean hline
  refine ⟨houtgoing, hcloses, h.candid.mono hcount hgrows, ?_⟩
  rw [← show m.requester = m'.requester from congrArg Line.requester hline,
    ← List.append_nil accepted]
  refine h.stance.hear [] hlive hcount hgrows (fun hlive' told told' htold _ hcovers => ?_)
    (fun _ h => h) fun _ index _ h => absurd h (not_tellOf_nil index)
  intro index hindex
  exact (hcovers.gain hequipped hpast hstep hm (hlive hlive') hannounces index hindex).imp_left
    (htold index)

theorem tells_begun {link : Link} {address : Address} {handshake : Handshake} {buffer : ReadBuffer}
    (hclean : s.hub.packetPool.Clean)
    (hfollow : st.follow? number s (.connect number link address handshake buffer) = some st')
    (hline : Session.line m' = st.session.firstLine now link buffer) :
    Tells start past number st' m' [] := by
  obtain ⟨hfresh, _, _, rfl⟩ := follow?_connect hfollow
  simp only [Session.line, Connection.line, firstLine, Line.mk.injEq] at hline
  obtain ⟨_, hstatus, hqueue, hwriter, _, _, hlink, hrequester⟩ := hline
  have hunwritten : (m'.endpoint s.hub).unwritten = [] := by
    rw [Endpoint.unwritten, Member.endpoint, hwriter]
  refine ⟨.live [] [] [] ⟨rfl, .nil, ?_, ?_, fun _ => hunwritten, hclean⟩, ?_, .nil _, ?_⟩
  · rw [Member.endpoint, hqueue]
    rfl
  · rw [hunwritten, Member.endpoint, hlink, hfresh]
    rfl
  · rw [Endpoint.ClosesInTime, Member.endpoint, hqueue, Connection.isRunning, hstatus]
    rfl
  · rw [hrequester]
    exact .greeting

structure TellsAll (start : Session) (number : Nat) (past : List (Nanoseconds × Event))
    (st : Station) : Prop where
  absent : st.session.members.get? number = none → st.carried = []
  tells : ∀ m, st.session.members.get? number = some m →
    ∃ accepted, Tells start past number st m accepted

theorem live_of_live (hhappen : st.session.happen? now event = some s)
    (hm : st.session.members.get? number = some m) (hm' : s.members.get? number = some m')
    (hlive : m'.isLive = true) : m.isLive = true ∧ event ≠ .shutdown := by
  simp only [Member.isLive, Bool.and_eq_true, Bool.not_eq_true'] at hlive ⊢
  have hduty' := duty_of_member hm'
  refine ⟨?_, ?_⟩
  · obtain ⟨d, hduty, hchange⟩ := change_of_shift (shift_of_happen hhappen) (duty_of_member hm)
    cases hduty.symm.trans hduty'
    obtain ⟨hrunning, hkept⟩ := hchange.live (Connection.status_of_isRunning hlive.1) hlive.2
    have hstatus : m.connection.status = .running := hrunning
    exact ⟨by rw [Connection.isRunning, hstatus], hkept⟩
  · rintro rfl
    cases hhappen
    rw [register_shutdown] at hduty'
    obtain ⟨d, _, htold⟩ := Option.map_eq_some_iff.mp hduty'
    have hcancelled : m'.connection.cancelled = true :=
      (congrArg (fun d => d.fate.cancelled) htold).symm
    cases hlive.2.symm.trans hcancelled

theorem tellsAll_step (hstart : Starts ownId t connectionOptions policy start)
    (hframes : t.options.maxRequest.toNat + 9 < 4294967296)
    (hpast : Session.run? past start = some st.session) (h : TellsAll start number past st)
    (hstep : st.step? number now event = some st') :
    TellsAll start number (past ++ [(now, event)]) st' := by
  obtain ⟨s, hhappen, hfollow, hs⟩ := step?_eq_some hstep
  have hequipped := equipped_run hstart hpast
  have hclean : s.hub.packetPool.Clean := (serves_happen hpast hequipped.toServes hhappen).clean
  refine ⟨fun hnone => ?_, fun m' hm' => ?_⟩
  · rw [hs] at hnone
    have hbefore := absent_of_absent hhappen hnone
    exact carried_of_absent hbefore (h.absent hbefore) hfollow
  rw [hs] at hm'
  have hline := line_of_member hm'
  cases hm : st.session.members.get? number with
  | none =>
      rcases handled_of_happen hhappen with ⟨_, hhandled⟩ | ⟨_, index, new, hannounces⟩
      · obtain ⟨link, address, handshake, buffer, rfl, hl⟩ := begun_of_handled hm hhandled hline
        exact ⟨[], tells_begun hclean hfollow hl⟩
      · rw [hannounces.board_eq] at hline
        cases (congrArg (Option.map Session.line) hm).symm.trans hline
  | some m =>
      obtain ⟨accepted, htells⟩ := h.tells m hm
      have hlive := live_of_live hhappen hm hm'
      rcases handled_of_happen hhappen with ⟨howned, hhandled⟩ | ⟨rfl, index, new, hannounces⟩
      · exact tells_touched hstart hframes hpast hm htells howned hclean hlive rfl
          (touched_of_handled hm hhandled) hfollow hline
      · have hapart : (Event.own .finishPiece).concerns number = false := rfl
        rw [follow?_eq hapart hfollow]
        rw [hannounces.board_eq] at hline
        exact ⟨accepted, tells_gained hequipped hpast hhappen hm htells hclean
          (fun hlive' => (hlive hlive').1) hannounces
          (Option.some.inj ((line_of_member hm).symm.trans hline))⟩

theorem members_of_starts (hstart : Starts ownId t connectionOptions policy start) :
    start.members = .empty := by
  obtain ⟨made, owned, hmake, rfl⟩ := hstart.exists_make
  exact (made_of_make hmake).members_eq

theorem tellsAll_run (hstart : Starts ownId t connectionOptions policy start)
    (hframes : t.options.maxRequest.toNat + 9 < 4294967296)
    {events : List (Nanoseconds × Event)} (hrun : run? number events (begin start) = some st) :
    TellsAll start number events st := by
  refine run_history (Q := TellsAll start number) ⟨fun _ => rfl, fun m hm => ?_⟩
    (fun hpast h hstep => tellsAll_step hstart hframes hpast h hstep) hrun
  rw [begin, members_of_starts hstart] at hm
  cases hm

/-! ### The far end -/

variable {e : Endpoint} {heard : List Message} {come : Bytes} {events : List (Nanoseconds × Event)}

theorem Tells.isFramed {script : List Message} (h : Tells start past number st m accepted)
    (hscript : WithKeepAlives accepted script) : ∀ m ∈ script, m.IsFramed :=
  hscript.forall_of_keepAlive h.candid.framed Message.isFramed_keepAlive

/-- What the far end has heard is the first part of what was said. -/
theorem TellsAll.exists_said (h : TellsAll start number past st)
    (hlistens : Endpoint.Listens st.session.owned.pieceCount e heard come)
    (hcome : come <+: st.carried) : ∃ said, Candid st.session.owned said
      ∧ e.impression = .ofMessages st.session.owned.pieceCount said
      ∧ ∀ index, TellOf heard index ↔ TellOf said index := by
  cases hm : st.session.members.get? number with
  | none =>
      have hnothing : come <+: ([] : List Message).flatMap Message.encode := by
        rw [h.absent hm] at hcome
        exact hcome
      have hheard : heard = [] := List.prefix_nil.mp
        (hlistens.heard_prefix hnothing fun _ hm => absurd hm List.not_mem_nil)
      exact ⟨[], .nil _, hheard ▸ hlistens.hears.2, fun index => by rw [hheard]⟩
  | some m =>
      obtain ⟨accepted, htells⟩ := h.tells m hm
      obtain ⟨script, hscript, hwritten⟩ := htells.outgoing.written
      have hfirst := hlistens.heard_prefix (hcome.trans ((List.prefix_append _ _).trans hwritten))
        (htells.isFramed hscript)
      obtain ⟨said, hsaid, hkeeps⟩ := hscript.of_prefix hfirst
      exact ⟨said, htells.candid.of_prefix hsaid,
        hlistens.hears.2.trans (Impression.ofMessages_script hkeeps), fun index =>
          tellOf_script hkeeps⟩

/-- Nothing that was to be told to the peer is on its way any more. -/
structure Delivered (st : Station) (number : Nat) (m : Member) (e : Endpoint) (come : Bytes) :
    Prop where
  announced : ∀ a ∈ st.session.announcements, a.number ≠ number
  queue_eq : m.connection.queue.items = []
  unwritten_eq : (m.endpoint st.session.hub).unwritten = []
  held_eq : m.link.outgoing.held = []
  come_eq : come = st.carried
  read_eq : e.link.incoming.held = []
  used_eq : e.connection.buffer.pending = []

theorem Tells.impression_eq (h : Tells start past number st m accepted) (hlive : m.isLive = true)
    (hlistens : Endpoint.Listens st.session.owned.pieceCount e heard come)
    (hdelivered : st.Delivered number m e come) :
    e.impression = .ofMessages st.session.owned.pieceCount accepted := by
  have hrunning : m.connection.isRunning = true := (Bool.and_eq_true_iff.mp hlive).1
  obtain ⟨script, hscript, hcarried⟩ := h.outgoing.all_carried hrunning hdelivered.queue_eq
    hdelivered.unwritten_eq hdelivered.held_eq
  have hheard := hlistens.heard_eq (hdelivered.come_eq.trans hcarried) (h.isFramed hscript)
    hdelivered.read_eq hdelivered.used_eq
  rw [hlistens.hears.2, hheard, Impression.ofMessages_script hscript]

theorem Tells.covers (h : Tells start past number st m accepted) (hlive : m.isLive = true)
    (hgreeted : m.requester.hasGreeted = true) :
    Covers start past st.session number (TellOf accepted) ∧ .unchoke ∈ accepted := by
  have hstance := h.stance
  generalize m.requester = r at hstance hgreeted
  cases hstance with
  | settled r _ htold => exact htold hlive
  | asking p message after _ _ _ htold => exact htold hlive
  | _ => cases hgreeted

/-- When all has come to the far end, every piece that is owned is recorded there, or the peer was
first to announce it. -/
theorem Tells.recorded (h : Tells start past number st m accepted) (hlive : m.isLive = true)
    (hgreeted : m.requester.hasGreeted = true)
    (hlistens : Endpoint.Listens st.session.owned.pieceCount e heard come)
    (hdelivered : st.Delivered number m e come)
    (hindex : st.session.owned.contains index = true) :
    e.connection.pieces.contains index = true ∨ FirstAnnounced start past number index := by
  have himpression := h.impression_eq hlive hlistens hdelivered
  rcases (h.covers hlive hgreeted).1 index hindex with htold | ⟨a, ha, hnumber, _⟩ | hfirst
  · have hrecorded := (h.candid.contains_iff (Bitfield.lt_of_contains hindex)).mpr htold
    rw [← himpression] at hrecorded
    exact Or.inl hrecorded
  · exact absurd hnumber (hdelivered.announced a ha)
  · exact Or.inr hfirst

/-- The far end of a connection records no piece that is not owned. And when the peer was greeted
and all that was to be told has come to it, every piece that is owned is recorded there, or the peer
announced it before it was marked. This rests on one assumption about the queue of the connection,
that of `inTurn`: who began to wait for a place first gets it first. -/
theorem learns_owned (hstart : Starts ownId t connectionOptions policy start)
    (hframes : t.options.maxRequest.toNat + 9 < 4294967296)
    (hrun : run? number events (begin start) = some st)
    (hlistens : Endpoint.Listens start.pieceCount e heard come) (hcome : come <+: st.carried) :
    (∀ index, e.connection.pieces.contains index = true → st.session.owned.contains index = true)
      ∧ ∀ m, st.session.members.get? number = some m → m.isLive = true →
        m.requester.hasGreeted = true → st.Delivered number m e come →
          ∀ index, st.session.owned.contains index = true →
            e.connection.pieces.contains index = true
              ∨ FirstAnnounced start events number index := by
  have htells := tellsAll_run hstart hframes hrun
  rw [← pieceCount_run (begins_of_starts hstart).1 (run_session hrun)] at hlistens
  refine ⟨fun index hindex => ?_, fun m hm hlive hgreeted hdelivered index hindex => ?_⟩
  · have hlt : index < st.session.owned.pieceCount := by
      rw [← (Impression.fits_ofMessages st.session.owned.pieceCount heard).pieceCount_eq,
        ← hlistens.hears.2]
      exact Bitfield.lt_of_contains hindex
    obtain ⟨said, hcandid, himpression, _⟩ := htells.exists_said hlistens hcome
    have hrecorded : (Impression.ofMessages st.session.owned.pieceCount said).pieces.contains index
        = true := himpression ▸ hindex
    exact hcandid.truthful index hlt ((hcandid.contains_iff hlt).mp hrecorded)
  · obtain ⟨accepted, h⟩ := htells.tells m hm
    exact h.recorded hlive hgreeted hlistens hdelivered hindex

/-- The second peer has the piece that is missing. When it has come, the first peer is told of it,
and the network carries everything away. -/
def passesOn : List (Nanoseconds × Event) :=
  let request (number : Nat) : Event := .own (.request number [])
  let receive (number : Nat) : Event := .own (.receive number)
  let transmit (number : Nat) : Event := .own (.transmit number)
  ([joins 0 [], joins 1 [.bitfield [0x80], .unchoke, .piece 0 0 [10], .piece 0 1 [11]]]
    ++ List.replicate 4 (request 0) ++ List.replicate 6 (transmit 0)
    ++ List.replicate 4 (request 1) ++ List.replicate 4 (receive 1)
    ++ List.replicate 9 (request 1) ++ List.replicate 4 (receive 1)
    ++ [.own .consume, .own .consume, .own .finishPiece, .own (.announce 0 false)]
    ++ List.replicate 3 (transmit 0) ++ [.farEnd 0 (.make 4096)] : List Event).map
      fun event => (0, event)

def listener (come : Bytes) : Endpoint :=
  ⟨(Connection.make ⟨.v4 [127, 0, 0, 1], 6881⟩ .zero 2 {} (.forMessages defaultMaxMessage) 0).start 0,
    ⟨.make 4, .make 4, .zero 2, .make 16 4, .make 16 4⟩, ⟨(Pipe.make 4096).append come, .make 4096⟩⟩

def read? : Nat → Endpoint → Option Endpoint
  | 0, e => some e
  | count + 1, e => (e.receive? 0).bind (read? count)

theorem listens_read {pieceCount count : Nat} {e' : Endpoint}
    (h : Endpoint.Listens pieceCount e heard come) (hread : read? count e = some e') :
    ∃ heard, Endpoint.Listens pieceCount e' heard come := by
  induction count generalizing e heard with
  | zero =>
      cases hread
      exact ⟨heard, h⟩
  | succ count ih =>
      obtain ⟨next, hstep, hrest⟩ := Option.bind_eq_some_iff.mp hread
      exact ih (h.receives hstep) hrest

/-- The first peer has read the bit field, that it is unchoked, and that there is another piece. -/
theorem learns_owned_passesOn : ∃ start st m e heard,
    Starts .zero twoPieces { maxMessage := 4096 } {} start
    ∧ run? 0 passesOn (begin start) = some st ∧ st.session.members.get? 0 = some m
    ∧ Endpoint.Listens start.pieceCount e heard st.carried ∧ st.Delivered 0 m e st.carried
    ∧ start.owned.contains 0 = false ∧ st.session.owned.contains 0 = true
    ∧ (∀ index, e.connection.pieces.contains index = true → st.session.owned.contains index = true)
    ∧ (e.connection.pieces.contains 0 = true ∨ FirstAnnounced start passesOn 0 0) := by
  have hdone : (start? .zero twoPieces { maxMessage := 4096 } {}).any (fun start =>
      (run? 0 passesOn (begin start)).any fun st => (st.session.members.get? 0).any fun m =>
        (read? 5 (listener st.carried)).any fun e =>
          decide (start.pieceCount = 2 ∧ start.owned.contains 0 = false
            ∧ st.session.owned.contains 0 = true ∧ m.isLive = true
            ∧ m.requester.hasGreeted = true ∧ (∀ a ∈ st.session.announcements, a.number ≠ 0)
            ∧ m.connection.queue.items = [] ∧ (m.endpoint st.session.hub).unwritten = []
            ∧ m.link.outgoing.held = [] ∧ e.link.incoming.held = []
            ∧ e.connection.buffer.pending = [])) = true := by
    decide +kernel
  obtain ⟨start, hstart, hdone⟩ := (Option.any_eq_true _ _).mp hdone
  obtain ⟨st, hrun, hdone⟩ := (Option.any_eq_true _ _).mp hdone
  obtain ⟨m, hm, hdone⟩ := (Option.any_eq_true _ _).mp hdone
  obtain ⟨e, hread, htest⟩ := (Option.any_eq_true _ _).mp hdone
  obtain ⟨hcount, hmissing, howned, hlive, hgreeted, hannounced, hqueue, hunwritten, hout, hin, hused⟩ :=
    of_decide_eq_true htest
  have hfresh : Endpoint.Listens start.pieceCount (listener st.carried) [] st.carried := by
    have hcome : (listener st.carried).connection.buffer.pending
        ++ (listener st.carried).link.incoming.held = st.carried :=
      Pipe.held_append (.make 4096) st.carried
    have h : Endpoint.Listens 2 (listener st.carried) [] _ := .fresh _ rfl
      (ReadBuffer.ready_forMessages (UInt32.le_iff_toNat_le.mpr (Nat.le_refl _)))
    rwa [hcome, ← hcount] at h
  obtain ⟨heard, hlistens⟩ := listens_read hfresh hread
  have hdelivered : st.Delivered 0 m e st.carried :=
    ⟨hannounced, hqueue, hunwritten, hout, rfl, hin, hused⟩
  have hlearns := learns_owned (starts_of_start? hstart) (by decide) hrun hlistens
    (List.prefix_refl _)
  exact ⟨start, st, m, e, heard, starts_of_start? hstart, hrun, hm, hlistens, hdelivered, hmissing,
    howned, hlearns.1, hlearns.2 m hm hlive hgreeted hdelivered 0 howned⟩

end Station

end TorrentCore
