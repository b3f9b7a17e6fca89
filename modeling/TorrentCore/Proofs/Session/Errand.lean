import TorrentCore.Proofs.Session.Desk

/-!
# What becomes of the desk

`Errand` has a case for every way in which an event can change the desk of a session. A request
arrives when the reader that holds it finds a place in the channel. The uploader takes what has
arrived when its turn comes. An answer is put into a queue by the uploader only, and any other
packet that a step of the session puts there was made from a message without a block.
-/

namespace TorrentCore

namespace Session

variable {s s' : Session} {now : Nanoseconds} {late : Bool} {number : Nat} {event : Event} {d : Desk}

/-- The request that arrives in an event, and the connection over which it came. -/
def arrival? (s : Session) : Event → Option (Nat × UploadRequest)
  | .own (.receive number) => (s.endpoint? number).bind fun e => e.handsOver?.map fun u =>
      (number, u)
  | _ => none

theorem arrival?_eq_some {u : UploadRequest} (h : s.arrival? event = some (number, u)) :
    ∃ mail uploads, event = .own (.receive number) ∧ s.desk.mail number = some mail
      ∧ mail.reader = .offeringUpload u ∧ s.hub.uploads.offer u = .accepted uploads := by
  unfold arrival? at h
  split at h
  case h_2 => cases h
  next number' =>
  obtain ⟨e, he, hhanded⟩ := Option.bind_eq_some_iff.mp h
  obtain ⟨u', hhands, heq⟩ := Option.map_eq_some_iff.mp hhanded
  cases heq
  obtain ⟨hmail, hhub⟩ := mail_of_endpoint? he
  unfold Endpoint.handsOver? at hhands
  split at hhands
  · next u₀ hreader =>
    split at hhands
    · next uploads hoffer =>
      cases hhands
      exact ⟨_, uploads, rfl, hmail, hreader, hhub ▸ hoffer⟩
    · cases hhands
  · cases hhands

def answers? (s : Session) (now : Nanoseconds) : Event → Option Nat
  | .own (.sendUpload late) => match s.upload with
    | .sending number _ parcel => match s.deliver now late number parcel with
      | .sent _ => some number
      | _ => none
    | _ => none
  | _ => none

def Event.isTurn : Event → Bool
  | .own .pickUpload | .shutdown => true
  | _ => false

structure Plain (now : Nanoseconds) (s : Session) (event : Event) : Prop where
  other : event.isTurn = false
  arrival_eq : s.arrival? event = none
  answers_eq : s.answers? now event = none

inductive Errand (now : Nanoseconds) (s : Session) : Event → Desk → Prop
  | quiet (event : Event) (hplain : s.Plain now event) : Errand now s event s.desk
  | joined (number : Nat) (link : Link) (address : Address) (h : Handshake) (buffer : ReadBuffer)
      (hfresh : s.desk.mail number = none) :
      Errand now s (.connect number link address h buffer)
        (s.desk.put number ⟨h.peerId, .decoding, []⟩)
  | worked (action : Action) (number : Nat) (mail mail' : Mail)
      (hother : (Event.own action).isTurn = false)
      (hsilent : s.answers? now (.own action) = none)
      (hmail : s.desk.mail number = some mail) (honward : mail.Onward mail') :
      Errand now s (.own action)
        ((s.desk.put number mail').accept ((s.arrival? (.own action)).map Prod.snd))
  | spoke (event : Event) (number : Nat) (packet : Buffer) (m : Message)
      (hplain : s.Plain now event) (hmessage : ¬ m.IsPiece) (hpacket : packet.bytes = m.encode) :
      Errand now s event (s.desk.post number packet)
  | sent (number : Nat) (packet : Buffer) (m : Message) (late : Bool)
      (hpacket : packet.bytes = m.encode) :
      Errand now s (.send number m late) (s.desk.post number packet)
  | answered (late : Bool) (number : Nat) (r : BlockRequest) (parcel : Parcel)
      (hphase : s.upload = .sending number r parcel)
      (hanswers : s.answers? now (.own (.sendUpload late)) = some number) :
      Errand now s (.own (.sendUpload late)) (s.desk.post number parcel.packet)
  | turned (hidle : s.upload = .idle) :
      Errand now s (.own .pickUpload)
        { s.desk with uploads := { s.hub.uploads with items := [] }, backlog := s.waiting.tail }
  | shutdown : Errand now s .shutdown
      { s.desk with uploads := ⟨s.hub.uploads.capacity, [], true⟩, backlog := [] }

/-- Unless the uploader has its turn, what has arrived is put behind what had arrived before, and
the backlog stays as it is. -/
theorem Errand.accept (h : s.Errand now event d) (hother : event.isTurn = false) :
    d.uploads = { s.hub.uploads with
        items := s.hub.uploads.items ++ ((s.arrival? event).map Prod.snd).toList }
      ∧ d.backlog = s.backlog := by
  cases h with
  | quiet _ hplain | spoke _ _ _ _ hplain =>
      rw [hplain.arrival_eq, Option.map_none, Option.toList_none, List.append_nil]
      exact ⟨rfl, rfl⟩
  | joined | sent | answered =>
      rw [arrival?, Option.map_none, Option.toList_none, List.append_nil]
      · exact ⟨rfl, rfl⟩
      all_goals exact nofun
  | worked => exact ⟨rfl, rfl⟩
  | turned | shutdown => cases hother

/-! ### Connections -/

theorem yields_connectionStep {step : Endpoint → Option Endpoint}
    (handed : Endpoint → Option UploadRequest) (hpasses : ∀ e e', step e = some e' → e.Passes e')
    (hforwards : ∀ e e', step e = some e' → e.Forwards (handed e) e')
    (h : s.connectionStep? number step = some s') :
    ∃ e mail', s.endpoint? number = some e ∧ e.connection.mail.Onward mail'
      ∧ s.Yields ((s.desk.put number mail').accept (handed e)) s' := by
  unfold connectionStep? at h
  split at h
  · cases h
  next e he =>
  obtain ⟨e', he', rfl⟩ := Option.map_eq_some_iff.mp h
  obtain ⟨honward, huploads⟩ := hforwards e e' he'
  have hyields := yields_putEndpoint he (hpasses e e' he')
  rw [huploads, (mail_of_endpoint? he).2] at hyields
  exact ⟨e, e'.connection.mail, he, honward, hyields⟩

theorem yields_send {m : Message} (h : s.send? now late number m = some s') :
    s.Quiet s' ∨ ∃ packet, (s.hub.packetPool.Clean → packet.bytes = m.encode)
      ∧ s.Yields (s.desk.post number packet) s' := by
  unfold send? at h
  split at h
  · next hsent =>
    cases h
    exact Or.inr ⟨_, fun hclean => (Hub.bytes_pack hclean m).1,
      (quiet_pack s m).trans (yields_of_sent hsent)⟩
  · next hrefused =>
    cases h
    exact Or.inl ((quiet_pack s m).quiet (quiet_of_refused hrefused))
  · cases h

theorem Yields.forget {announcements : List Announcement} (h : s.Yields d s')
    (hless : announcements ⊆ s.announcements) :
    s.Yields d { s' with announcements := announcements } := by
  refine ⟨h.desk_eq, h.clean, fun hclean hspoken p hp => ?_⟩
  cases hp with
  | asked n m hm hparcel => exact h.spoken hclean hspoken p (.asked n m hm hparcel)
  | announced a ha hparcel => exact hspoken p (.announced a (hless ha) hparcel)

theorem yields_sendAnnouncement {position : Nat}
    (h : s.sendAnnouncement? now late position = some s') :
    s.Quiet s' ∨ ∃ number p, s.UnderWay p ∧ s.Yields (s.desk.post number p.packet) s' := by
  unfold sendAnnouncement? at h
  split at h
  · cases h
  · next a ha =>
    have hless : s.announcements.eraseIdx position ⊆ s.announcements :=
      List.eraseIdx_subset
    simp only at h
    split at h
    · next hsent =>
      cases h
      exact Or.inr ⟨a.number, a.parcel, .announced a (List.mem_of_getElem? ha) rfl,
        (yields_of_sent hsent).forget hless⟩
    · next hrefused =>
      cases h
      exact Or.inl ((quiet_of_refused hrefused).forget hless)
    · cases h

/-! ### The uploader -/

theorem quiet_readUpload (h : s.readUpload? = some s') : s.Quiet s' := by
  unfold readUpload? at h
  split at h
  · simp only at h
    split at h
    · cases h
      exact quiet_of_eq rfl rfl rfl rfl
    · cases h
      exact ⟨rfl, fun hclean => hclean.giveBack _, fun _ hspoken =>
        hspoken.congr rfl (List.Subset.refl _)⟩
  · cases h

theorem quiet_serve (s : Session) (u : UploadRequest) : s.Quiet (s.serve u) := by
  unfold serve
  split
  · exact Quiet.refl s
  split
  · exact Quiet.refl s
  split
  · exact quiet_disconnect s _
  split
  · exact Quiet.refl s
  split
  · exact Quiet.refl s
  split
  · exact Quiet.refl s
  · exact ⟨rfl, fun hclean => hclean.take.2, fun _ hspoken =>
      hspoken.congr rfl (List.Subset.refl _)⟩

theorem yields_leaving (s : Session) (rest : List UploadRequest) : s.Yields
    { s.desk with uploads := { s.hub.uploads with items := [] }, backlog := rest }
    (s.leaving rest) :=
  ⟨rfl, id, fun _ hspoken => hspoken.congr rfl (List.Subset.refl _)⟩

theorem pickUpload_eq (h : s.pickUpload? = some s') : s.upload = .idle
    ∧ s' = match s.waiting with
      | [] => s.leaving []
      | u :: rest => (s.leaving rest).serve u := by
  unfold pickUpload? at h
  split at h
  · next hidle =>
    refine ⟨hidle, ?_⟩
    split at h
    · cases h
    simp only at h
    split at h
    · next hnone =>
      cases h
      rw [show s.waiting = [] from hnone]
      rfl
    · next u rest hfirst =>
      cases h
      rw [show s.waiting = u :: rest from hfirst]
      rfl
  · cases h

theorem yields_pickUpload (h : s.pickUpload? = some s') : s.upload = .idle ∧ s.Yields
    { s.desk with uploads := { s.hub.uploads with items := [] }, backlog := s.waiting.tail } s' := by
  obtain ⟨hidle, rfl⟩ := pickUpload_eq h
  refine ⟨hidle, ?_⟩
  split
  · next hnone =>
    rw [hnone]
    exact s.yields_leaving []
  · next u rest hfirst =>
    rw [hfirst]
    exact (s.yields_leaving rest).quiet (quiet_serve _ u)

theorem quiet_noteUploaded (s : Session) (number length : Nat) :
    s.Quiet (s.noteUploaded number length) :=
  Yields.quiet (quiet_modify s number (f := fun m => { m with connection := { m.connection with
      counters := m.connection.counters.blockUploaded length } }) (fun _ => rfl)
    fun _ => List.Subset.refl _) (quiet_of_eq rfl rfl rfl rfl)

theorem yields_sendUpload (h : s.sendUpload? now late = some s') :
    ∃ number r parcel, s.upload = .sending number r parcel
      ∧ ((s.answers? now (.own (.sendUpload late)) = none ∧ s.Quiet s')
        ∨ s.answers? now (.own (.sendUpload late)) = some number
          ∧ s.Yields (s.desk.post number parcel.packet) s') := by
  unfold sendUpload? at h
  split at h
  case h_2 => cases h
  next number r parcel hphase =>
  refine ⟨number, r, parcel, hphase, ?_⟩
  simp only [answers?, hphase]
  split at h
  · next sent hsent =>
    cases h
    rw [hsent]
    refine Or.inr ⟨rfl, ?_⟩
    refine Yields.quiet ?_ (quiet_noteUploaded _ number _)
    exact (yields_of_sent hsent).quiet (quiet_of_eq rfl rfl rfl rfl)
  · next hrefused =>
    cases h
    rw [hrefused]
    exact Or.inl ⟨rfl, (quiet_of_refused hrefused).quiet (quiet_of_eq rfl rfl rfl rfl)⟩
  · cases h

/-! ### Joining and the end -/

theorem yields_addPeer {link : Link} {address : Address} {h : Handshake} {buffer : ReadBuffer}
    (hadd : s.addPeer now number link address h buffer = .ok s') :
    s.Yields (s.desk.put number ⟨h.peerId, .decoding, []⟩) s' := by
  unfold addPeer at hadd
  split at hadd
  · cases hadd
  split at hadd
  · cases hadd
  cases hadd
  refine ⟨?_, id, fun _ hspoken p hp => ?_⟩
  · show Desk.mk _ _ _ = Desk.mk _ _ _
    congr 1
    funext n
    rw [Table.get?_insert]
    split <;> rfl
  · cases hp with
    | asked n m hm hparcel =>
        rw [Table.get?_insert] at hm
        split at hm
        · cases hm
          cases hparcel
        · exact hspoken p (.asked n m hm hparcel)
    | announced a ha hparcel => exact hspoken p (.announced a ha hparcel)

theorem yields_shutdown (s : Session) : s.Yields
    { s.desk with uploads := ⟨s.hub.uploads.capacity, [], true⟩, backlog := [] } s.shutdown := by
  have hfound : ∀ n, s.shutdown.members.get? n = (s.members.get? n).map fun m : Member =>
      { m with connection := m.connection.disconnect } := fun n =>
    Table.find?_map_values s.members.entries n fun m : Member =>
      { m with connection := m.connection.disconnect }
  refine ⟨?_, fun hclean => hclean.giveBackAll _, fun _ hspoken p hp => ?_⟩
  · show Desk.mk _ _ _ = Desk.mk _ _ _
    congr 1
    funext n
    rw [hfound n, Option.map_map]
    rfl
  · cases hp with
    | asked n m hm hparcel =>
        rw [hfound n] at hm
        obtain ⟨old, hold, rfl⟩ := Option.map_eq_some_iff.mp hm
        exact hspoken p (.asked n old hold hparcel)
    | announced a ha => cases ha

/-! ### Events -/

/-- What an event does to the desk, if no requester and no announcement is going to send a piece. -/
theorem errand_of_happen (hclean : s.hub.packetPool.Clean) (hspoken : s.Spoken)
    (h : s.happen? now event = some s') : ∃ d, s.Errand now event d ∧ s.Yields d s' := by
  have hquiet : ∀ event, s.Plain now event → s.Quiet s' → ∃ d, s.Errand now event d
      ∧ s.Yields d s' :=
    fun event hplain hquiet => ⟨s.desk, .quiet event hplain, hquiet⟩
  have hspoke : ∀ event number p, s.Plain now event → s.UnderWay p →
      s.Yields (s.desk.post number p.packet) s' → ∃ d, s.Errand now event d ∧ s.Yields d s' := by
    intro event number p hplain hunder hyields
    obtain ⟨m, hm, hpacket⟩ := hspoken p hunder
    exact ⟨_, .spoke event number p.packet m hplain hm hpacket, hyields⟩
  cases event with
  | own action =>
      cases action with
      | stop number =>
          obtain ⟨e, mail', he, honward, hyields⟩ := yields_connectionStep (fun _ => none)
            (fun _ _ => Endpoint.passes_stop) (fun _ _ => Endpoint.forwards_stop) h
          exact ⟨_, .worked _ number _ mail' rfl rfl (mail_of_endpoint? he).1 honward, hyields⟩
      | receive number =>
          obtain ⟨e, mail', he, honward, hyields⟩ := yields_connectionStep Endpoint.handsOver?
            (fun _ _ => Endpoint.passes_receive) (fun _ _ => Endpoint.forwards_receive) h
          have harrival : (s.arrival? (.own (.receive number))).map Prod.snd = e.handsOver? := by
            rw [arrival?, he, Option.bind_some, Option.map_map]
            exact congrFun Option.map_id _
          rw [← harrival] at hyields
          exact ⟨_, .worked _ number _ mail' rfl rfl (mail_of_endpoint? he).1 honward, hyields⟩
      | transmit number =>
          obtain ⟨e, mail', he, honward, hyields⟩ := yields_connectionStep (fun _ => none)
            (fun _ _ => Endpoint.passes_transmit) (fun _ _ => Endpoint.forwards_transmit) h
          exact ⟨_, .worked _ number _ mail' rfl rfl (mail_of_endpoint? he).1 honward, hyields⟩
      | closeOut number => exact hquiet _ ⟨rfl, rfl, rfl⟩ (quiet_closeOut h)
      | request number coins =>
          rcases yields_request h with hsame | ⟨p, hunder, hyields⟩
          · exact hquiet _ ⟨rfl, rfl, rfl⟩ hsame
          · exact hspoke _ number p ⟨rfl, rfl, rfl⟩ hunder hyields
      | announce position late =>
          rcases yields_sendAnnouncement h with hsame | ⟨number, p, hunder, hyields⟩
          · exact hquiet _ ⟨rfl, rfl, rfl⟩ hsame
          · exact hspoke _ number p ⟨rfl, rfl, rfl⟩ hunder hyields
      | consume => exact hquiet _ ⟨rfl, rfl, rfl⟩ (quiet_consume h)
      | finishPiece => exact hquiet _ ⟨rfl, rfl, rfl⟩ (quiet_finishPiece h)
      | expire => exact hquiet _ ⟨rfl, rfl, rfl⟩ (quiet_expire h)
      | pickUpload =>
          obtain ⟨hidle, hyields⟩ := yields_pickUpload h
          exact ⟨_, .turned hidle, hyields⟩
      | readUpload => exact hquiet _ ⟨rfl, rfl, rfl⟩ (quiet_readUpload h)
      | sendUpload late =>
          obtain ⟨number, r, parcel, hphase, ⟨hnone, hsame⟩ | ⟨hsome, hyields⟩⟩ :=
            yields_sendUpload h
          · exact hquiet _ ⟨rfl, rfl, hnone⟩ hsame
          · exact ⟨_, .answered late number r parcel hphase hsome, hyields⟩
  | connect number link address handshake buffer =>
      rw [happen?] at h
      split at h
      · cases h
      next hfresh =>
      rw [Option.not_isSome_iff_eq_none] at hfresh
      cases hadd : s.addPeer now number link address handshake buffer with
      | ok added =>
          rw [hadd] at h
          cases h
          exact ⟨_, .joined number link address handshake buffer
            (congrArg (Option.map fun m : Member => m.connection.mail) hfresh), yields_addPeer hadd⟩
      | error e =>
          rw [hadd] at h
          cases h
  | farEnd number link =>
      cases h
      exact hquiet _ ⟨rfl, rfl, rfl⟩
        (quiet_modify s number (fun _ => rfl) fun _ => List.Subset.refl _)
  | disconnect number =>
      cases h
      exact hquiet _ ⟨rfl, rfl, rfl⟩ (quiet_disconnect s number)
  | send number m late =>
      rcases yields_send h with hsame | ⟨packet, hpacket, hyields⟩
      · exact hquiet _ ⟨rfl, rfl, rfl⟩ hsame
      · exact ⟨_, .sent number packet m late (hpacket hclean), hyields⟩
  | dropAllPeers =>
      cases h
      exact hquiet _ ⟨rfl, rfl, rfl⟩ (quiet_dropAllPeers s)
  | addAddress a =>
      cases h
      refine hquiet _ ⟨rfl, rfl, rfl⟩ ?_
      unfold addAddress
      split <;> exact quiet_of_eq rfl rfl rfl rfl
  | shutdown =>
      cases h
      exact ⟨_, .shutdown, yields_shutdown s⟩
  | pause | resume | removeFinishedPeers | startConnecting a | doneConnecting a =>
      cases h
      exact hquiet _ ⟨rfl, rfl, rfl⟩ (quiet_of_eq rfl rfl rfl rfl)

end Session

end TorrentCore
