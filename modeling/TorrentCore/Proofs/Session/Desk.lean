import TorrentCore.Proofs.Connection.Mail
import TorrentCore.Proofs.Session.Uploading

/-!
# The desk of the uploader

On the desk of a session lie the requests on their way to the uploader and those it has taken, and
for every connection the request that its reader holds and the packets in its queue. What becomes of
the desk is said once for every event, by `Errand`. Most events leave it alone. A packet is put into
a queue by the uploader, or it was made from a message: one that a requester sends, the announcement
of a piece, or one that is sent from outside. No requester and no announcement ever sends a piece.
-/

namespace TorrentCore

def Message.IsPiece : Message → Prop
  | .piece .. => True
  | _ => False

/-- A packet that was made from a message without a block. -/
def Parcel.Speaks (p : Parcel) : Prop := ∃ m : Message, ¬ m.IsPiece ∧ p.packet.bytes = m.encode

def Requester.parcels : Requester → List Parcel
  | .sending parcel after => parcel :: after.parcels
  | _ => []

structure Desk where
  uploads : Channel UploadRequest
  backlog : List UploadRequest
  mail : Nat → Option Mail

namespace Desk

def put (d : Desk) (number : Nat) (mail : Mail) : Desk :=
  { d with mail := fun n => if n = number then some mail else d.mail n }

def post (d : Desk) (number : Nat) (packet : Buffer) : Desk :=
  { d with mail := fun n => if n = number then (d.mail number).map (Mail.post packet) else d.mail n }

def accept (d : Desk) (handed : Option UploadRequest) : Desk :=
  { d with uploads := { d.uploads with items := d.uploads.items ++ handed.toList } }

variable {d : Desk} {number : Nat} {mail : Mail}

theorem put_same (h : d.mail number = some mail) : d.put number mail = d := by
  show Desk.mk _ _ _ = Desk.mk _ _ d.mail
  congr 1
  funext n
  split
  · next heq => rw [heq, h]
  · rfl

theorem put_post (h : d.mail number = some mail) (packet : Buffer) :
    d.put number (mail.post packet) = d.post number packet := by
  rw [put, post, h]
  rfl

end Desk

namespace Session

variable {s s' : Session} {now : Nanoseconds} {late : Bool} {number : Nat} {p : Parcel}

def desk (s : Session) : Desk :=
  ⟨s.hub.uploads, s.backlog, fun number => (s.members.get? number).map fun m => m.connection.mail⟩

inductive UnderWay (s : Session) (p : Parcel) : Prop
  | asked (number : Nat) (m : Member) (hmember : s.members.get? number = some m)
      (hparcel : p ∈ m.requester.parcels)
  | announced (a : Announcement) (hannounced : a ∈ s.announcements) (hparcel : a.parcel = p)

/-- No requester and no announcement is going to send a piece. -/
def Spoken (s : Session) : Prop := ∀ p, s.UnderWay p → p.Speaks

/-- What happens leaves the desk like this, and spoils no packet. -/
structure Yields (s : Session) (d : Desk) (s' : Session) : Prop where
  desk_eq : s'.desk = d
  clean : s.hub.packetPool.Clean → s'.hub.packetPool.Clean
  spoken : s.hub.packetPool.Clean → s.Spoken → s'.Spoken

abbrev Quiet (s s' : Session) : Prop := s.Yields s.desk s'

theorem Quiet.refl (s : Session) : s.Quiet s := ⟨rfl, id, fun _ => id⟩

theorem Yields.trans {s s' s'' : Session} {d d' : Desk} (h : s.Yields d s')
    (h' : s'.Yields d' s'') : s.Yields d' s'' :=
  ⟨h'.desk_eq, fun hclean => h'.clean (h.clean hclean),
    fun hclean hspoken => h'.spoken (h.clean hclean) (h.spoken hclean hspoken)⟩

theorem Yields.quiet {s s' s'' : Session} {d : Desk} (h : s.Yields d s') (h' : s'.Quiet s'') :
    s.Yields d s'' := by
  obtain ⟨hdesk, hclean, hspoken⟩ := Yields.trans h h'
  exact ⟨hdesk.trans h.desk_eq, hclean, hspoken⟩

/-! ### Members -/

theorem desk_modify (s : Session) (number : Nat) {f : Member → Member}
    (h : ∀ m, (f m).connection.mail = m.connection.mail) :
    desk { s with members := s.members.modify number f } = s.desk := by
  show Desk.mk _ _ _ = Desk.mk _ _ _
  congr 1
  funext n
  rw [Table.get?_modify]
  split
  · next heq =>
    rw [heq, Option.map_map]
    congr 1
    funext m
    exact h m
  · rfl

theorem spoken_modify {f : Member → Member} (hspoken : s.Spoken)
    (h : ∀ m, s.members.get? number = some m → ∀ p ∈ (f m).requester.parcels, p.Speaks) :
    Spoken { s with members := s.members.modify number f } := by
  intro p hp
  cases hp with
  | asked n m hm hparcel =>
      rw [Table.get?_modify] at hm
      split at hm
      · obtain ⟨old, hold, rfl⟩ := Option.map_eq_some_iff.mp hm
        exact h old hold p hparcel
      · exact hspoken p (.asked n m hm hparcel)
  | announced a ha hparcel => exact hspoken p (.announced a ha hparcel)

theorem quiet_modify (s : Session) (number : Nat) {f : Member → Member}
    (hmail : ∀ m, (f m).connection.mail = m.connection.mail)
    (hrequester : ∀ m, (f m).requester.parcels ⊆ m.requester.parcels) :
    s.Quiet { s with members := s.members.modify number f } :=
  ⟨desk_modify s number hmail, id, fun _ hspoken => spoken_modify hspoken fun m hm p hp =>
    hspoken p (.asked number m hm (hrequester m hp))⟩

theorem desk_setRequester (s : Session) (number : Nat) (r : Requester) :
    (s.setRequester number r).desk = s.desk := desk_modify s number fun _ => rfl

theorem quiet_setRequester (s : Session) (number : Nat) {r : Requester}
    (h : s.hub.packetPool.Clean → s.Spoken → ∀ p ∈ r.parcels, p.Speaks) :
    s.Quiet (s.setRequester number r) :=
  ⟨desk_setRequester s number r, id, fun hclean hspoken =>
    spoken_modify hspoken fun _ _ => h hclean hspoken⟩

theorem quiet_assign (s : Session) (number : Nat) {r : Requester} (h : r.parcels = []) :
    s.Quiet (s.setRequester number r) :=
  quiet_setRequester s number fun _ _ _ hp => absurd hp (h ▸ List.not_mem_nil)

theorem quiet_disconnect (s : Session) (number : Nat) : s.Quiet (s.disconnect number) :=
  quiet_modify s number (fun _ => rfl) fun _ => List.Subset.refl _

theorem Spoken.congr (hspoken : s.Spoken) (hmembers : s'.members = s.members)
    (hannouncements : s'.announcements ⊆ s.announcements) : s'.Spoken := by
  intro p hp
  cases hp with
  | asked n m hm hparcel => exact hspoken p (.asked n m (hmembers ▸ hm) hparcel)
  | announced a ha hparcel => exact hspoken p (.announced a (hannouncements ha) hparcel)

theorem quiet_of_eq (hdesk : s'.desk = s.desk) (hpool : s'.hub.packetPool = s.hub.packetPool)
    (hmembers : s'.members = s.members) (hannouncements : s'.announcements = s.announcements) :
    s.Quiet s' :=
  ⟨hdesk, fun hclean => hpool ▸ hclean, fun _ hspoken =>
    hspoken.congr hmembers (hannouncements ▸ List.Subset.refl _)⟩

/-! ### Connections -/

theorem mail_of_endpoint? {e : Endpoint} (he : s.endpoint? number = some e) :
    s.desk.mail number = some e.connection.mail ∧ e.hub = s.hub := by
  obtain ⟨m, hm, rfl⟩ := Option.map_eq_some_iff.mp he
  exact ⟨congrArg (Option.map fun m : Member => m.connection.mail) hm, rfl⟩

theorem desk_putEndpoint {e : Endpoint} (he : s.endpoint? number = some e) (e' : Endpoint) :
    (s.putEndpoint number e').desk
      = { s.desk.put number e'.connection.mail with uploads := e'.hub.uploads } := by
  obtain ⟨m, hm, _⟩ := Option.map_eq_some_iff.mp he
  simp only [desk, Desk.put, putEndpoint, Table.get?_modify, hm, Option.map_some]
  congr 1
  funext n
  split <;> rfl

theorem yields_putEndpoint {e e' : Endpoint} (he : s.endpoint? number = some e)
    (hpasses : e.Passes e') : s.Yields
      { s.desk.put number e'.connection.mail with uploads := e'.hub.uploads }
      (s.putEndpoint number e') := by
  refine ⟨desk_putEndpoint he e', (passes_putEndpoint he hpasses).clean, fun _ hspoken => ?_⟩
  have hhub : Spoken { s with hub := e'.hub } := hspoken.congr rfl (List.Subset.refl _)
  exact spoken_modify hhub fun m hm p hp => hspoken p (.asked number m hm hp)

theorem yields_of_sent (h : s.deliver now late number p = .sent s') :
    s.Yields (s.desk.post number p.packet) s' := by
  unfold deliver at h
  split at h
  · cases h
  next e he =>
  split at h
  · next e' hsent =>
    cases h
    obtain ⟨hmail, hhub⟩ := Endpoint.mail_of_sent hsent
    obtain ⟨hbefore, hsame⟩ := mail_of_endpoint? he
    have hyields := yields_putEndpoint he (Endpoint.passes_of_sent hsent)
    rw [hmail, Desk.put_post hbefore, hhub, hsame] at hyields
    exact hyields
  · cases h
  · cases h

theorem quiet_of_refused (h : s.deliver now late number p = .refused s') : s.Quiet s' := by
  have hclean := (passes_of_refused h).clean
  unfold deliver at h
  split at h
  · cases h
    exact ⟨rfl, hclean, fun _ hspoken => hspoken.congr rfl (List.Subset.refl _)⟩
  next e he =>
  split at h
  · cases h
  · cases h
  · next cause e' hrefused =>
    cases h
    obtain ⟨hmail, hhub⟩ := Endpoint.mail_of_refused hrefused
    obtain ⟨hbefore, hsame⟩ := mail_of_endpoint? he
    have hyields := yields_putEndpoint he (Endpoint.passes_of_refused hrefused)
    rw [hmail, Desk.put_same hbefore, hhub, hsame] at hyields
    exact hyields

theorem quiet_pack (s : Session) (m : Message) : s.Quiet { s with hub := (s.hub.pack m).2 } :=
  ⟨rfl, (passes_pack s m).clean, fun _ hspoken => hspoken.congr rfl (List.Subset.refl _)⟩

theorem speaks_pack {h : Hub} (hclean : h.packetPool.Clean) {m : Message} (hm : ¬ m.IsPiece) :
    (h.pack m).1.Speaks := ⟨m, hm, (Hub.bytes_pack hclean m).1⟩

/-! ### Requesters -/

theorem quiet_ask (s : Session) (number : Nat) {m : Message} {after : Requester}
    (hm : ¬ m.IsPiece) (hafter : after.parcels = []) : s.Quiet (s.ask number m after) := by
  refine ⟨desk_modify { s with hub := (s.hub.pack m).2 } number fun _ => rfl,
    (passes_ask s number m after).clean, fun hclean hspoken => ?_⟩
  have hpacked : Spoken { s with hub := (s.hub.pack m).2 } := (quiet_pack s m).spoken hclean hspoken
  refine spoken_modify hpacked fun _ _ p hp => ?_
  rw [Requester.parcels, hafter, List.mem_singleton] at hp
  exact hp ▸ speaks_pack hclean hm

theorem quiet_tell (s : Session) (number : Nat) (c : Connection) (interested : Bool)
    {after : Requester} (hafter : after.parcels = []) :
    s.Quiet (s.tell number c interested after) := by
  unfold tell
  split
  · exact quiet_assign s number hafter
  · refine quiet_ask s number ?_ hafter
    cases interested <;> exact (nomatch ·)

theorem quiet_choose (s : Session) (number : Nat) (c : Connection) (coins : List Bool) :
    s.Quiet (s.choose number c coins) := by
  unfold choose
  split
  · exact quiet_tell s number c false rfl
  · split
    · exact quiet_assign s number rfl
    · split
      · exact quiet_tell s number c true rfl
      · exact quiet_tell s number c _ rfl

theorem quiet_claim (s : Session) (now : Nanoseconds) (number : Nat) (c : Connection)
    (index : Nat) : s.Quiet (s.claim now number c index) := by
  unfold claim
  split
  · exact quiet_assign s number rfl
  · split
    · exact quiet_assign s number rfl
    · simp only
      split
      · exact quiet_assign s number rfl
      · next reservations _ =>
        have hreserved : s.Quiet { s with
            reservations := reservations
            owners := s.owners.insert index c.peerId } := quiet_of_eq rfl rfl rfl rfl
        exact hreserved.quiet (quiet_assign _ number rfl)

theorem yields_request {coins : List Bool} (h : s.request? now number coins = some s') :
    s.Quiet s' ∨ ∃ p, s.UnderWay p ∧ s.Yields (s.desk.post number p.packet) s' := by
  unfold request? at h
  split at h
  · cases h
  next m hm =>
  simp only at h
  split at h
  · cases h
  cases hphase : m.requester with
  | sending parcel after =>
      have hparcels : m.requester.parcels = parcel :: after.parcels := by
        rw [hphase, Requester.parcels]
      rw [hphase] at h
      simp only at h
      split at h
      · next sent hsent =>
        cases h
        have hyields := yields_of_sent hsent
        refine Or.inr ⟨parcel, .asked number m hm (hparcels ▸ List.mem_cons_self), ?_⟩
        refine ⟨(desk_setRequester sent number after).trans hyields.desk_eq, hyields.clean,
          fun hclean hspoken => ?_⟩
        refine spoken_modify (hyields.spoken hclean hspoken) fun _ _ p hp => ?_
        exact hspoken p (.asked number m hm (hparcels ▸ List.mem_cons_of_mem _ hp))
      · next hrefused =>
        cases h
        exact Or.inl (((quiet_of_refused hrefused).quiet (quiet_assign _ number rfl)).quiet
          (quiet_disconnect _ number))
      · cases h
  | choosing =>
      rw [hphase] at h
      cases h
      exact Or.inl (quiet_choose s number m.connection coins)
  | claiming index =>
      rw [hphase] at h
      cases h
      exact Or.inl (quiet_claim s now number m.connection index)
  | parting =>
      rw [hphase] at h
      cases h
      refine Or.inl ?_
      split
      · exact (quiet_assign s number rfl).quiet (quiet_disconnect _ number)
      · exact quiet_assign s number rfl
  | _ =>
      -- What is left sends a message or goes on at once.
      rw [hphase] at h
      simp only at h
      repeat' split at h
      all_goals cases h
      all_goals first
        | exact Or.inl (quiet_assign s number rfl)
        | exact Or.inl (quiet_ask s number (nomatch ·) rfl)

/-! ### Blocks and pieces -/

theorem quiet_noteDiscarded (s : Session) (sender : Identifier) :
    s.Quiet (s.noteDiscarded sender) := by
  unfold noteDiscarded
  split
  · exact quiet_modify s _ (fun _ => rfl) fun _ => List.Subset.refl _
  · exact Quiet.refl s

theorem quiet_addBlock (s : Session) (b : Block) : s.Quiet (s.addBlock b).2 := by
  unfold addBlock
  repeat' split
  · exact quiet_of_eq rfl rfl rfl rfl
  · exact quiet_of_eq rfl rfl rfl rfl
  · exact quiet_of_eq rfl rfl rfl rfl
  · simp only
    split
    · refine Yields.quiet ?_ (quiet_noteDiscarded _ b.sender)
      exact quiet_of_eq rfl rfl rfl rfl
    · split <;> exact quiet_of_eq rfl rfl rfl rfl

theorem quiet_consume (h : s.consume? = some s') : s.Quiet s' := by
  unfold consume? at h
  split at h
  · cases h
  split at h
  · cases h
  next block blocks _ =>
  cases h
  obtain ⟨hdesk, hclean, hspoken⟩ :=
    quiet_addBlock { s with hub := { s.hub with blocks := blocks } } block
  refine ⟨hdesk, hclean, fun hfirst hbefore => ?_⟩
  exact (hspoken hfirst (hbefore.congr rfl (List.Subset.refl _))).congr rfl (List.Subset.refl _)

theorem quiet_announce (s : Session) (index : Nat) : s.Quiet (s.announce index) := by
  unfold announce
  generalize s.peers.values = numbers
  induction numbers generalizing s with
  | nil => exact Quiet.refl s
  | cons number numbers ih =>
      rw [List.foldl_cons]
      refine Yields.quiet ?_ (ih _)
      split
      · split
        · exact Quiet.refl s
        · refine ⟨rfl, (passes_pack s _).clean, fun hclean hspoken p hp => ?_⟩
          cases hp with
          | asked n m hm hparcel => exact hspoken p (.asked n m hm hparcel)
          | announced a ha hparcel =>
              rcases List.mem_append.mp ha with hold | hnew
              · exact hspoken p (.announced a hold hparcel)
              · rw [← hparcel, List.mem_singleton.mp hnew]
                exact speaks_pack hclean (nomatch ·)
      · exact Quiet.refl s

theorem quiet_markOwned (s : Session) (piece : AssembledPiece) : s.Quiet (s.markOwned piece) := by
  unfold markOwned
  split
  · refine Yields.quiet ?_ (quiet_announce _ piece.piece)
    exact quiet_of_eq rfl rfl rfl rfl
  · exact Quiet.refl s

theorem quiet_finishPiece (h : s.finishPiece? = some s') : s.Quiet s' := by
  unfold finishPiece? at h
  split at h
  · cases h
  next piece _ =>
  simp only at h
  split at h
  · cases h
    exact quiet_of_eq rfl rfl rfl rfl
  cases h
  -- Only marking the piece packs anything.
  have hdone : ∀ r : Session, r.Quiet r.notePieceDone := fun r =>
    quiet_of_eq rfl rfl rfl rfl
  refine Yields.quiet ?_ (hdone _)
  split
  · refine Yields.quiet ?_ (quiet_markOwned _ piece)
    exact quiet_of_eq rfl rfl rfl rfl
  · exact quiet_of_eq rfl rfl rfl rfl
  · exact quiet_of_eq rfl rfl rfl rfl

/-! ### Joining and leaving -/

theorem quiet_releaseOwned (s : Session) (peerId : Identifier) :
    s.Quiet (s.releaseOwned peerId) := by
  unfold releaseOwned
  simp only
  generalize (s.owners.filter fun _ owner => owner == peerId).keys = indices
  induction indices generalizing s with
  | nil => exact Quiet.refl s
  | cons index indices ih =>
      refine Yields.quiet ?_ (ih (s.releasePiece index))
      exact quiet_of_eq rfl rfl rfl rfl

theorem quiet_dropRequester (s : Session) (r : Requester) : s.Quiet (s.dropRequester r) := by
  have hclean := (passes_dropRequester s r).clean
  unfold dropRequester at hclean ⊢
  split
  · exact ⟨rfl, hclean, fun _ hspoken => hspoken.congr rfl (List.Subset.refl _)⟩
  · exact Quiet.refl s

theorem quiet_closeOut (h : s.closeOut? number = some s') : s.Quiet s' := by
  unfold closeOut? at h
  split at h
  · cases h
  next m _ =>
  split at h
  · cases h
  cases h
  have hdropped := quiet_dropRequester s m.requester
  generalize s.dropRequester m.requester = dropped at hdropped
  let closed : Session := { dropped with
    members := dropped.members.modify number fun m =>
      { m with requester := .retired, closedOut := true }
    peers := if dropped.peers.get? m.connection.peerId = some number
      then dropped.peers.erase m.connection.peerId else dropped.peers }
  have hclosed : dropped.Quiet closed := Yields.quiet
    (quiet_modify dropped number (f := fun m => { m with requester := .retired, closedOut := true })
      (fun _ => rfl) fun _ => List.nil_subset _)
    (quiet_of_eq rfl rfl rfl rfl)
  have hreleased := quiet_releaseOwned closed m.connection.peerId
  exact ((hdropped.quiet hclosed).quiet hreleased).quiet (quiet_of_eq rfl rfl rfl rfl)

theorem quiet_expire (h : s.expire? now = some s') : s.Quiet s' := by
  unfold expire? at h
  split at h
  · cases h
  · obtain ⟨⟨expiry, reservations⟩, _, rfl⟩ := Option.map_eq_some_iff.mp h
    exact quiet_of_eq rfl rfl rfl rfl

theorem quiet_dropAllPeers (s : Session) : s.Quiet s.dropAllPeers := by
  have htold : ∀ (numbers : List Nat) (r : Session), r.Quiet (numbers.foldl disconnect r) := by
    intro numbers
    induction numbers with
    | nil => exact Quiet.refl
    | cons number numbers ih =>
        exact fun r => (quiet_disconnect r number).quiet (ih (r.disconnect number))
  refine (htold s.peers.values s).quiet ?_
  exact quiet_of_eq rfl rfl rfl rfl

/-! ### The start -/

structure Bare (t : TorrentSource) (s : Session) : Prop where
  uploads_eq : s.hub.uploads = .make t.options.uploadChannel
  backlog_eq : s.backlog = []
  idle : s.upload = .idle
  members_eq : s.members = .empty
  peers_eq : s.peers = .empty
  announcements_eq : s.announcements = []
  clean : s.hub.packetPool.Clean

theorem bare_of_starts {ownId : Identifier} {t : TorrentSource}
    {connectionOptions : ConnectionOptions} {policy : ReservationPolicy}
    (h : Starts ownId t connectionOptions policy s) : s.Bare t := by
  have hmade : ∀ {made}, make ownId t connectionOptions policy = .ok made → made.Bare t := by
    intro made h
    obtain ⟨hidle, hclean, hpeers⟩ := serves_of_made h
    have hmembers := (made_of_make h).members_eq
    unfold make at h
    cases hgeometry : Geometry.make t.geometry.totalLength t.geometry.pieceLength
        t.options.blockLength with
    | error e =>
        rw [hgeometry] at h
        cases h
    | ok g =>
        rw [hgeometry] at h
        simp only [bind, Except.bind, pure, Except.pure, throw, throwThe, MonadExceptOf.throw] at h
        repeat' split at h
        all_goals cases h
        all_goals exact ⟨rfl, rfl, hidle, hmembers, hpeers, rfl, hclean⟩
  obtain ⟨made, owned, hmake, rfl⟩ := h.exists_make
  obtain ⟨huploads, hbacklog, hidle, hmembers, hpeers, hannouncements, hclean⟩ := hmade hmake
  exact ⟨huploads, hbacklog, hidle, hmembers, hpeers, hannouncements, hclean⟩

theorem Bare.spoken {t : TorrentSource} (h : s.Bare t) : s.Spoken := by
  intro p hp
  cases hp with
  | asked n m hm =>
      rw [h.members_eq] at hm
      cases hm
  | announced a ha =>
      rw [h.announcements_eq] at ha
      cases ha

end Session

end TorrentCore
