import TorrentCore.Proofs.Session.Owned
import TorrentCore.Proofs.Session.Shift
import TorrentCore.Proofs.Session.Tally
import TorrentCore.Proofs.Storage

/-!
# Uploads are safe and exact

A request is granted only if the session is not paused, the peer is listed and not choked, the part
lies in a piece that we have, and it is neither empty nor too long. A listed peer whose request is
not legal is told to go. Everything else is passed over. What is sent for a request that was granted
is the frame of a piece message with the bytes of the storage, and it is sent to nobody else.

Serving takes three steps of the uploader, and anything may happen between them. So what a run knows
of the request under way is kept as an invariant, `Serves`, that looks back on the events so far.
-/

namespace TorrentCore

namespace Message

theorem encode_piece (index offset : UInt32) {length : UInt32} {block : Bytes}
    (h : block.length = length.toNat) :
    encode (.piece index offset block) = encodePieceHeader index offset length ++ block := by
  have hword : UInt32.ofNat block.length = length := by
    rw [h]
    exact UInt32.ofNat_toNat
  simp only [encode, encodePieceHeader, lengthWord, kind?, payload, hword, Option.toList_some,
    List.append_assoc]

@[simp] theorem length_encodePieceHeader (index offset length : UInt32) :
    (encodePieceHeader index offset length).length = pieceHeaderSize := rfl

end Message

namespace Session

variable {s s' : Session} {r : BlockRequest} {number : Nat} {late : Bool}

/-- A part of a piece that may be asked for. -/
structure Legal (s : Session) (r : BlockRequest) : Prop where
  index_lt : r.index.toNat < s.pieceCount
  length_pos : 0 < r.length.toNat
  length_le : r.length.toNat ≤ s.options.maxRequest.toNat
  within : r.offset.toNat + r.length.toNat ≤ (s.geometry.lengthOf ⟨r.index⟩).toNat

/-- The numbers of a request are words, but no sum of them wraps unnoticed. -/
theorem isValidRequest_iff (hgeometry : s.geometry.Sound) (r : BlockRequest) :
    s.isValidRequest r = true ↔ s.Legal r := by
  have hcount : s.pieceCount = s.geometry.lastPiece.toNat + 1 := hgeometry.toNat_pieceCount
  have hlength := (s.geometry.lengthOf ⟨r.index⟩).toNat_lt
  have hzero : (r.length != 0) = true ↔ 0 < r.length.toNat := by
    rw [bne_iff_ne, ne_eq, ← UInt32.toNat_inj, Nat.pos_iff_ne_zero]
    rfl
  unfold isValidRequest Geometry.piece?
  split
  · next hnone =>
    refine ⟨fun h => Bool.noConfusion h, fun h => ?_⟩
    have hindex := h.index_lt
    split at hnone
    · next hless =>
      rw [UInt32.lt_iff_toNat_lt] at hless
      omega
    · cases hnone
  · next p hpiece =>
    split at hpiece
    · cases hpiece
    next hless =>
    cases hpiece
    rw [UInt32.lt_iff_toNat_lt] at hless
    simp only [Bool.and_eq_true, decide_eq_true_eq, hzero, UInt32.le_iff_toNat_le]
    constructor
    · rintro ⟨⟨⟨hpos, hle⟩, _⟩, hwithin⟩
      exact ⟨by omega, hpos, hle, hwithin⟩
    · rintro ⟨_, hpos, hle, hwithin⟩
      exact ⟨⟨⟨hpos, hle⟩, by omega⟩, hwithin⟩

/-- A request that may be served, over the connection of this number. -/
structure Grants (s : Session) (u : UploadRequest) (number : Nat) : Prop where
  active : s.paused = false
  listed : s.peers.get? u.peerId = some number
  unchoked : ∃ m, s.members.get? number = some m ∧ m.connection.peerChoked = false
  legal : s.Legal u.request
  owned : s.owned.contains u.request.index.toNat = true

/-- What comes of a request whose turn it is. -/
inductive Serving (s : Session) (u : UploadRequest) : Session → Prop
  /-- It may not be served, and nothing is wrong with it that a listed peer could be blamed for. -/
  | passedOver (hnot : ∀ number, ¬ s.Grants u number)
      (hfine : s.paused = true ∨ s.peers.get? u.peerId = none ∨ s.Legal u.request) :
      Serving s u s
  | expelled (number : Nat) (m : Member) (hactive : s.paused = false)
      (hlisted : s.peers.get? u.peerId = some number) (hmember : s.members.get? number = some m)
      (hillegal : ¬ s.Legal u.request) : Serving s u (s.disconnect number)
  /-- It is being served, in a packet that has the header and room for the block. -/
  | granted (number : Nat) (packet : Buffer) (hgrants : s.Grants u number)
      (hpacket : packet.bytes
        = Message.encodePieceHeader u.request.index u.request.offset u.request.length
          ++ List.replicate u.request.length.toNat 0) :
      Serving s u { s with
        hub := { s.hub with packetPool := s.hub.packetPool.take.2 }
        upload := .reading number u.request packet }

/-- What a session relies on when it serves requests. -/
structure Prepared (s : Session) : Prop where
  geometry : s.geometry.Sound
  clean : s.hub.packetPool.Clean
  listed : ∀ entry ∈ s.peers.entries, ∃ d, s.register.duty entry.2 = some d

theorem serving_serve (h : s.Prepared) (u : UploadRequest) : Serving s u (s.serve u) := by
  have hlegal := isValidRequest_iff h.geometry u.request
  unfold serve
  split
  · next hnone =>
    refine .passedOver (fun number hgrants => ?_) (Or.inr (Or.inl hnone))
    have hlisted := hgrants.listed
    rw [hnone] at hlisted
    cases hlisted
  next number hlisted =>
  obtain ⟨d, hduty⟩ := h.listed _ (Table.mem_of_get? hlisted)
  obtain ⟨m, hm, _⟩ := member_of_duty hduty
  -- The connection is the one that is listed.
  have hsame : ∀ {n}, s.Grants u n → n = number := fun hgrants =>
    Option.some.inj (hgrants.listed.symm.trans hlisted)
  split
  · next hpaused =>
    refine .passedOver (fun n hgrants => ?_) (Or.inl hpaused)
    have hactive := hgrants.active
    rw [hpaused] at hactive
    cases hactive
  next hactive =>
  rw [Bool.not_eq_true] at hactive
  split
  · next hinvalid =>
    rw [Bool.not_eq_true', ← Bool.not_eq_true, hlegal] at hinvalid
    exact .expelled number m hactive hlisted hm hinvalid
  next hvalid =>
  rw [Bool.not_eq_true', Bool.not_eq_false, hlegal] at hvalid
  split
  · next hmissing =>
    refine .passedOver (fun n hgrants => ?_) (Or.inr (Or.inr hvalid))
    rw [hgrants.owned] at hmissing
    cases hmissing
  next howned =>
  rw [Bool.not_eq_true', Bool.not_eq_false] at howned
  rw [hm]
  simp only
  split
  · next hchoked =>
    refine .passedOver (fun n hgrants => ?_) (Or.inr (Or.inr hvalid))
    obtain ⟨m', hm', hunchoked⟩ := hgrants.unchoked
    rw [hsame hgrants] at hm'
    cases hm.symm.trans hm'
    rw [hunchoked] at hchoked
    cases hchoked
  · next hunchoked =>
    refine .granted number _ ⟨hactive, hlisted, ⟨m, hm, by simpa using hunchoked⟩,
      hvalid, howned⟩ ?_
    obtain ⟨hfilled, _⟩ := h.clean.takeFilled (Message.encodePieceHeader u.request.index
      u.request.offset u.request.length)
    rw [Buffer.bytes_resize, hfilled, Message.length_encodePieceHeader, Nat.add_sub_cancel_left]
    rw [hfilled, Message.length_encodePieceHeader]
    exact Nat.le_add_right _ _

def requested (s : Session) (r : BlockRequest) : Except StorageError Bytes :=
  s.storage.read ((s.geometry.offsetOf ⟨r.index⟩).toNat + r.offset.toNat) r.length.toNat

theorem length_of_requested {block : Bytes} (hblock : s.requested r = .ok block) :
    block.length = r.length.toNat := by
  obtain ⟨_, hfits, hslice⟩ := Storage.read_eq_ok_iff.mp hblock
  rw [hslice, Bytes.slice, List.length_take, List.length_drop]
  omega

theorem overwrite_header {block : Bytes} (hblock : s.requested r = .ok block) :
    ((Message.encodePieceHeader r.index r.offset r.length
      ++ List.replicate r.length.toNat 0).overwrite pieceHeaderSize block)
      = Message.encode (.piece r.index r.offset block) := by
  have hlength := length_of_requested hblock
  have hheader := Message.length_encodePieceHeader r.index r.offset r.length
  rw [Message.encode_piece r.index r.offset hlength, Bytes.overwrite, List.take_left' hheader,
    List.drop_eq_nil_of_le, List.append_nil]
  exact Nat.le_of_eq (by rw [List.length_append, hheader, List.length_replicate, hlength])

/-! ### What a run knows of the request under way -/

/-- The last step of the uploader among these events was this one. `before` are the events before
it. -/
def LastUpload (past : List (Nanoseconds × Event)) (action : Action)
    (before : List (Nanoseconds × Event)) : Prop :=
  ∃ now later, past = before ++ (now, .own action) :: later
    ∧ ∀ entry ∈ later, entry.2.isUpload = false

theorem LastUpload.now (past : List (Nanoseconds × Event)) (now : Nanoseconds) (action : Action) :
    LastUpload (past ++ [(now, .own action)]) action past :=
  ⟨now, [], rfl, fun _ h => absurd h List.not_mem_nil⟩

theorem LastUpload.later {past before : List (Nanoseconds × Event)} {action : Action}
    (h : LastUpload past action before) {now : Nanoseconds} {event : Event}
    (hother : event.isUpload = false) : LastUpload (past ++ [(now, event)]) action before := by
  obtain ⟨then', later, rfl, hlater⟩ := h
  refine ⟨then', later ++ [(now, event)], by rw [List.append_assoc, List.cons_append],
    fun entry hentry => ?_⟩
  rcases List.mem_append.mp hentry with hold | hnew
  · exact hlater entry hold
  · rw [List.mem_singleton.mp hnew]
    exact hother

def waiting (s : Session) : List UploadRequest := s.hub.uploads.items.foldl enqueue s.backlog

def leaving (s : Session) (rest : List UploadRequest) : Session :=
  { s with
    hub := { s.hub with uploads := { s.hub.uploads with items := [] } }
    backlog := rest }

/-- The last request that was picked is this one, and it was granted when its turn came. -/
def Granted (start : Session) (past : List (Nanoseconds × Event)) (number : Nat)
    (r : BlockRequest) : Prop :=
  ∃ before s u rest, LastUpload past .pickUpload before ∧ run? before start = some s
    ∧ s.waiting = u :: rest ∧ u.request = r ∧ s.Grants u number

def Fetched (start : Session) (past : List (Nanoseconds × Event)) (number : Nat) (r : BlockRequest)
    (block : Bytes) : Prop :=
  ∃ before s, LastUpload past .readUpload before ∧ run? before start = some s
    ∧ Granted start before number r ∧ s.requested r = .ok block

theorem Granted.later {start : Session} {past : List (Nanoseconds × Event)} {now : Nanoseconds}
    {event : Event} (h : Granted start past number r) (hother : event.isUpload = false) :
    Granted start (past ++ [(now, event)]) number r := by
  obtain ⟨before, s, u, rest, hlast, hgranted⟩ := h
  exact ⟨before, s, u, rest, hlast.later hother, hgranted⟩

theorem Fetched.later {start : Session} {past : List (Nanoseconds × Event)} {now : Nanoseconds}
    {event : Event} {block : Bytes} (h : Fetched start past number r block)
    (hother : event.isUpload = false) : Fetched start (past ++ [(now, event)]) number r block := by
  obtain ⟨before, s, hlast, hfetched⟩ := h
  exact ⟨before, s, hlast.later hother, hfetched⟩

structure Serves (start : Session) (past : List (Nanoseconds × Event)) (s : Session) : Prop
    extends s.Prepared where
  reading : ∀ number r packet, s.upload = .reading number r packet →
    Granted start past number r
      ∧ packet.bytes = Message.encodePieceHeader r.index r.offset r.length
        ++ List.replicate r.length.toNat 0
  sending : ∀ number r parcel, s.upload = .sending number r parcel →
    ∃ block, Fetched start past number r block ∧ parcel.message = none
      ∧ parcel.packet.bytes = Message.encode (.piece r.index r.offset block)

/-! ### The steps of the uploader -/

/-- What an event is for the uploads, and the block that it sends, if it sends one. -/
inductive Course (start : Session) (past : List (Nanoseconds × Event)) (s : Session) :
    Event → Session → Option (Nat × Nat) → Prop
  | passes (event : Event) (s' : Session) (hother : event.isUpload = false) (hpasses : s.Passes s') :
      Course start past s event s' none
  | shutdown : Course start past s .shutdown s.shutdown none
  | nothingWaits (hidle : s.upload = .idle) (hwaiting : s.waiting = []) :
      Course start past s (.own .pickUpload) (s.leaving []) none
  | picked (u : UploadRequest) (rest : List UploadRequest) (s' : Session) (hidle : s.upload = .idle)
      (hwaiting : s.waiting = u :: rest) (hserving : (s.leaving rest).Serving u s') :
      Course start past s (.own .pickUpload) s' none
  | read (number : Nat) (r : BlockRequest) (packet written : Buffer) (block : Bytes)
      (hphase : s.upload = .reading number r packet) (hgranted : Granted start past number r)
      (hblock : s.requested r = .ok block)
      (hwritten : written.bytes = Message.encode (.piece r.index r.offset block)) :
      Course start past s (.own .readUpload)
        { s with upload := .sending number r ⟨written, none⟩ } none
  | unreadable (number : Nat) (r : BlockRequest) (packet : Buffer) (cause : StorageError)
      (hphase : s.upload = .reading number r packet) (hblock : s.requested r = .error cause) :
      Course start past s (.own .readUpload) { s with
        upload := .idle
        hub := { s.hub with packetPool := s.hub.packetPool.giveBack packet } } none
  /-- The packet is put behind those that wait for this connection, and counted. Only where it is
  noticed late may the connection have been told to end. -/
  | queued (late : Bool) (number : Nat) (r : BlockRequest) (packet : Buffer) (block : Bytes)
      (m : Member) (queue : Channel Buffer) (hphase : s.upload = .sending number r ⟨packet, none⟩)
      (hfetched : Fetched start past number r block)
      (hpacket : packet.bytes = Message.encode (.piece r.index r.offset block))
      (hmember : s.members.get? number = some m)
      (hopen : m.connection.cancelled = false ∨ late = true)
      (hqueue : m.connection.queue.offer packet = .accepted queue) :
      Course start past s (.own (.sendUpload late))
        { s.putEndpoint number
            { connection := { m.connection with
                queue := queue
                counters := m.connection.counters.blockUploaded r.length.toNat }
              hub := s.hub
              link := m.link } with
          upload := .idle
          counters := s.counters.blockUploaded r.length.toNat }
        (some (number, r.length.toNat))
  | refused (late : Bool) (number : Nat) (r : BlockRequest) (parcel : Parcel)
      (members : Table Nat Member)
      (hphase : s.upload = .sending number r parcel)
      (hrefuses : ∀ m, s.members.get? number = some m →
        m.connection.cancelled = true ∨ m.connection.queue.closed = true)
      (hmembers : ∀ n, members.get? n = s.members.get? n) :
      Course start past s (.own (.sendUpload late)) { s with
        upload := .idle
        hub := s.hub.unpack parcel
        members := members } none

variable {start : Session} {past : List (Nanoseconds × Event)}

theorem course_pickUpload (hserves : Serves start past s) (h : s.pickUpload? = some s') :
    Course start past s (.own .pickUpload) s' none := by
  unfold pickUpload? at h
  split at h
  · next hidle =>
    split at h
    · cases h
    simp only at h
    split at h
    · next hwaiting =>
      cases h
      exact .nothingWaits hidle hwaiting
    · next u rest hwaiting =>
      cases h
      have hprepared : (s.leaving rest).Prepared :=
        ⟨hserves.geometry, hserves.clean, hserves.listed⟩
      exact .picked u rest _ hidle hwaiting (serving_serve hprepared u)
  · cases h

theorem course_readUpload (hserves : Serves start past s) (h : s.readUpload? = some s') :
    Course start past s (.own .readUpload) s' none := by
  unfold readUpload? at h
  split at h
  · next number r packet hphase =>
    obtain ⟨hgranted, hpacket⟩ := hserves.reading number r packet hphase
    simp only at h
    split at h
    · next block hblock =>
      cases h
      refine .read number r packet _ block hphase hgranted hblock ?_
      rw [hpacket]
      exact overwrite_header hblock
    · next cause hblock =>
      cases h
      exact .unreadable number r packet cause hphase hblock
  · cases h

theorem get?_putEndpoint_same {m : Member} (hm : s.members.get? number = some m) (hub : Hub)
    (n : Nat) :
    (s.putEndpoint number ⟨m.connection, hub, m.link⟩).members.get? n = s.members.get? n := by
  rw [putEndpoint, Table.get?_modify]
  split
  · next heq =>
    rw [heq, hm]
    rfl
  · rfl

theorem deliver_packet_cases (s : Session) (now : Nanoseconds) (late : Bool) (number : Nat)
    (packet : Buffer) :
    (∃ m queue, s.members.get? number = some m ∧ (m.connection.cancelled = false ∨ late = true)
        ∧ m.connection.queue.offer packet = .accepted queue
        ∧ s.deliver now late number ⟨packet, none⟩
          = .sent (s.putEndpoint number ⟨{ m.connection with queue := queue }, s.hub, m.link⟩))
      ∨ s.deliver now late number ⟨packet, none⟩ = .full
      ∨ ∃ members : Table Nat Member, (∀ m, s.members.get? number = some m →
          m.connection.cancelled = true ∨ m.connection.queue.closed = true)
        ∧ (∀ n, members.get? n = s.members.get? n)
        ∧ s.deliver now late number ⟨packet, none⟩
          = .refused { s with hub := s.hub.unpack ⟨packet, none⟩, members := members } := by
  cases hm : s.members.get? number with
  | none =>
      refine .inr (.inr ⟨s.members, fun _ hm' => (by cases hm'), fun _ => rfl, ?_⟩)
      rw [deliver, endpoint?, hm]
      rfl
  | some m =>
      have hendpoint : s.endpoint? number = some ⟨m.connection, s.hub, m.link⟩ := by
        rw [endpoint?, hm]
        rfl
      rw [deliver, hendpoint]
      dsimp only
      rcases Endpoint.send_cases ⟨m.connection, s.hub, m.link⟩ now late ⟨packet, none⟩ with
        ⟨queue, hopen, hoffer, hsent⟩ | hfull | ⟨cause, hwhy, hrefused⟩
      · rw [hsent]
        exact .inl ⟨m, queue, rfl, hopen, hoffer, rfl⟩
      · rw [hfull]
        exact .inr (.inl rfl)
      · rw [hrefused]
        refine .inr (.inr ⟨_, fun m' hm' => ?_, get?_putEndpoint_same hm _, rfl⟩)
        cases hm'
        exact hwhy

theorem noteUploaded_putEndpoint (s : Session) (number : Nat) (e : Endpoint) (length : Nat) :
    noteUploaded { s.putEndpoint number e with upload := .idle } number length
      = { s.putEndpoint number { e with connection := { e.connection with
            counters := e.connection.counters.blockUploaded length } } with
          upload := .idle
          counters := s.counters.blockUploaded length } := by
  unfold noteUploaded putEndpoint
  simp only [Table.modify_modify]
  rfl

theorem course_sendUpload {now : Nanoseconds} (hserves : Serves start past s)
    (h : s.sendUpload? now late = some s') :
    ∃ sent, Course start past s (.own (.sendUpload late)) s' sent := by
  unfold sendUpload? at h
  split at h
  case h_2 => cases h
  next number r parcel hphase =>
  obtain ⟨packet, message⟩ := parcel
  obtain ⟨block, hfetched, hmessage, hpacket⟩ := hserves.sending number r _ hphase
  cases hmessage
  rcases s.deliver_packet_cases now late number packet with ⟨m, queue, hm, hopen, hqueue, hsent⟩ | hfull
      | ⟨members, hrefuses, hmembers, hrefused⟩
  · rw [hsent] at h
    simp only [noteUploaded_putEndpoint] at h
    cases h
    exact ⟨_, .queued late number r packet block m queue hphase hfetched hpacket hm hopen hqueue⟩
  · rw [hfull] at h
    cases h
  · rw [hrefused] at h
    cases h
    exact ⟨none, .refused late number r _ members hphase hrefuses hmembers⟩

theorem course_happen {now : Nanoseconds} {event : Event} (hserves : Serves start past s)
    (h : s.happen? now event = some s') : ∃ sent, Course start past s event s' sent := by
  by_cases hshutdown : event = .shutdown
  · subst hshutdown
    cases h
    exact ⟨none, .shutdown⟩
  cases hupload : event.isUpload with
  | false => exact ⟨none, .passes event s' hupload (passes_happen hupload hshutdown h)⟩
  | true =>
      unfold Event.isUpload at hupload
      split at hupload
      · exact ⟨none, course_pickUpload hserves h⟩
      · exact ⟨none, course_readUpload hserves h⟩
      · exact course_sendUpload hserves h
      · cases hupload

theorem Course.tally_eq {event : Event} {sent : Option (Nat × Nat)}
    (h : Course start past s event s' sent) : s'.tally = s.tally.note sent := by
  cases h with
  | passes _ _ _ hpasses => exact hpasses.tally_eq
  | shutdown => exact tally_shutdown s
  | nothingWaits | read | unreadable => rfl
  | picked u rest _ _ _ hserving =>
      cases hserving with
      | passedOver | granted => rfl
      | expelled number => exact (passes_disconnect _ number).tally_eq
  | queued _ number r packet block m queue _ _ _ hmember =>
      have he : s.endpoint? number = some ⟨m.connection, s.hub, m.link⟩ := by
        rw [endpoint?, hmember]
        rfl
      have hbefore : s.tally.sentTo number = m.connection.counters.uploads := by
        rw [sentTo_tally, hmember]
        rfl
      show Tally.mk _ (s.putEndpoint number _).tally.sentTo = Tally.mk _ _
      congr 1
      funext n
      rw [sentTo_putEndpoint he, hbefore]
      rfl
  | refused _ number r parcel members _ _ hmembers =>
      show Tally.mk _ _ = Tally.mk _ s.tally.sentTo
      congr 1
      funext n
      rw [hmembers, sentTo_tally]

theorem Course.clean {event : Event} {sent : Option (Nat × Nat)}
    (h : Course start past s event s' sent) (hclean : s.hub.packetPool.Clean) :
    s'.hub.packetPool.Clean := by
  cases h with
  | passes _ _ _ hpasses => exact hpasses.clean hclean
  | shutdown => exact hclean.giveBackAll _
  | nothingWaits | read | queued => exact hclean
  | picked u rest _ _ _ hserving =>
      cases hserving with
      | passedOver | expelled => exact hclean
      | granted => exact hclean.take.2
  | unreadable number r packet => exact hclean.giveBack packet
  | refused _ _ _ parcel => exact hclean.giveBack parcel.packet

theorem listed_happen {now : Nanoseconds} {event : Event}
    (hlisted : ∀ entry ∈ s.peers.entries, ∃ d, s.register.duty entry.2 = some d)
    (h : s.happen? now event = some s') :
    ∀ entry ∈ s'.peers.entries, ∃ d, s'.register.duty entry.2 = some d := by
  rintro ⟨peerId, number⟩ hentry
  have hshift := shift_of_happen h
  rcases peers_of_shift hshift hentry with hold | ⟨hfresh, link, address, handshake, buffer, rfl, rfl⟩
  · obtain ⟨d, hduty⟩ := hlisted _ hold
    obtain ⟨d', hduty', _⟩ := change_of_shift hshift hduty
    exact ⟨d', hduty'⟩
  · obtain ⟨_, _, _, hregister⟩ := register_connect h
    rw [hregister, Register.duty_enter, if_pos rfl]
    exact ⟨_, rfl⟩

/-! ### Runs -/

theorem serves_happen {now : Nanoseconds} {event : Event} (hpast : run? past start = some s)
    (hserves : Serves start past s) (h : s.happen? now event = some s') :
    Serves start (past ++ [(now, event)]) s' := by
  obtain ⟨sent, hcourse⟩ := course_happen hserves h
  have hprepared : s'.Prepared := by
    refine ⟨?_, hcourse.clean hserves.clean, listed_happen hserves.listed h⟩
    rw [(gains_happen h).geometry_eq]
    exact hserves.geometry
  -- The uploader has nothing to do.
  have hrest : s'.upload = .idle → Serves start (past ++ [(now, event)]) s' := by
    intro hidle
    refine ⟨hprepared, fun number r packet hphase => ?_, fun number r parcel hphase => ?_⟩
    · rw [hidle] at hphase
      cases hphase
    · rw [hidle] at hphase
      cases hphase
  cases hcourse with
  | passes _ _ hother hpasses =>
      refine ⟨hprepared, fun number r packet hphase => ?_, fun number r parcel hphase => ?_⟩
      · obtain ⟨hgranted, hpacket⟩ :=
          hserves.reading number r packet (hpasses.upload_eq ▸ hphase)
        exact ⟨hgranted.later hother, hpacket⟩
      · obtain ⟨block, hfetched, hparcel⟩ :=
          hserves.sending number r parcel (hpasses.upload_eq ▸ hphase)
        exact ⟨block, hfetched.later hother, hparcel⟩
  | nothingWaits hidle _ => exact hrest hidle
  | shutdown | unreadable | queued | refused => exact hrest rfl
  | picked u rest _ hidle hwaiting hserving =>
      cases hserving with
      | passedOver => exact hrest hidle
      | expelled => exact hrest hidle
      | granted number packet hgrants hpacket =>
          refine ⟨hprepared, fun number' r' packet' hphase => ?_, fun _ _ _ hphase => ?_⟩
          · cases hphase
            obtain ⟨hactive, hlisted, hunchoked, hlegal, howned⟩ := hgrants
            exact ⟨⟨past, s, u, rest, .now past now _, hpast, hwaiting, rfl, hactive, hlisted,
              hunchoked, ⟨hlegal.index_lt, hlegal.length_pos, hlegal.length_le, hlegal.within⟩,
              howned⟩, hpacket⟩
          · cases hphase
  | read number r packet written block hphase hgranted hblock hwritten =>
      refine ⟨hprepared, fun _ _ _ hphase' => ?_, fun number' r' parcel' hphase' => ?_⟩
      · cases hphase'
      · cases hphase'
        exact ⟨block, ⟨past, s, .now past now _, hpast, hgranted, hblock⟩, rfl, hwritten⟩

theorem serves_of_made {ownId : Identifier} {t : TorrentSource}
    {connectionOptions : ConnectionOptions} {policy : ReservationPolicy}
    (h : make ownId t connectionOptions policy = .ok s) :
    s.upload = .idle ∧ s.hub.packetPool.Clean ∧ s.peers = .empty := by
  unfold make at h
  cases hgeometry : Geometry.make t.geometry.totalLength t.geometry.pieceLength
      t.options.blockLength with
  | error e =>
      rw [hgeometry] at h
      cases h
  | ok g =>
      rw [hgeometry] at h
      simp only [bind, Except.bind, pure, Except.pure, throw, throwThe, MonadExceptOf.throw] at h
      repeat' split at h
      all_goals cases h
      all_goals exact ⟨rfl, BufferPool.clean_make _ _, rfl⟩

theorem serves_of_starts {ownId : Identifier} {t : TorrentSource}
    {connectionOptions : ConnectionOptions} {policy : ReservationPolicy}
    (h : Starts ownId t connectionOptions policy start) : Serves start [] start := by
  obtain ⟨made, owned, hmake, rfl⟩ := h.exists_make
  have hgeometry := Geometry.sound_of_make (made_of_make hmake).geometry_eq
  obtain ⟨hidle, hclean, hpeers⟩ := serves_of_made hmake
  refine ⟨⟨hgeometry, hclean, fun entry hentry => ?_⟩, fun number r packet hphase => ?_,
    fun number r parcel hphase => ?_⟩
  · rw [hpeers] at hentry
    exact absurd hentry List.not_mem_nil
  · rw [hidle] at hphase
    cases hphase
  · rw [hidle] at hphase
    cases hphase

/-- In every session that can be reached, any request is served as `Serving` says, and any event is
for the uploads what `Course` says: a packet is sent only for a request that was granted, only over
the connection of its peer, and with the block that was read from storage. What is counted is what
is sent. -/
theorem uploads_exact {ownId : Identifier} {t : TorrentSource}
    {connectionOptions : ConnectionOptions} {policy : ReservationPolicy} {now : Nanoseconds}
    {events : List (Nanoseconds × Event)} {event : Event}
    (hstart : Starts ownId t connectionOptions policy start) (hrun : run? events start = some s)
    (hstep : s.happen? now event = some s') :
    (∀ u, Serving s u (s.serve u))
      ∧ ∃ sent, Course start events s event s' sent ∧ s'.tally = s.tally.note sent := by
  have hserves : Serves start events s :=
    run_history (Q := Serves start) (serves_of_starts hstart) serves_happen hrun
  obtain ⟨sent, hcourse⟩ := course_happen hserves hstep
  exact ⟨serving_serve hserves.toPrepared, sent, hcourse, hcourse.tally_eq⟩

def sending? (s : Session) : Option (Nat × BlockRequest) :=
  match s.upload with
  | .sending number r _ => some (number, r)
  | _ => none

/-- A peer asks for the piece that we have, and the block is read for it. -/
def seeding : List (Nanoseconds × Event) :=
  let request : Event := .own (.request 0 [])
  let receive : Event := .own (.receive 0)
  ([joins 0 [.request ⟨1, 0, 1⟩], request, request, request, request, receive, receive, receive,
    receive, .own .pickUpload, .own .readUpload] : List Event).map fun event => (0, event)

/-- The frame of the block is queued for the peer, and one byte in one block is counted. -/
theorem uploads_exact_seeding : ∃ start s s', Starts .zero twoPieces {} {} start
    ∧ run? seeding start = some s ∧ s.happen? 0 (.own (.sendUpload false)) = some s'
    ∧ Course start seeding s (.own (.sendUpload false)) s' (some (0, 1)) ∧ s'.tally.sentTo 0
      = (1, 1)
    ∧ (s'.members.get? 0).map (fun m => m.connection.queue.items.getLast?.map Buffer.bytes)
      = some (some (Message.encode (.piece 1 0 [12]))) := by
  have hdone : (after? .zero twoPieces {} {} seeding).any (fun s =>
      decide (s.sending? = some (0, ⟨1, 0, 1⟩))
      && (s.happen? 0 (.own (.sendUpload false))).any fun s' =>
        decide (s'.tally.bytes ≠ s.tally.bytes
        ∧ s'.tally.sentTo 0 = (1, 1)
        ∧ (s'.members.get? 0).map (fun m => m.connection.queue.items.getLast?.map Buffer.bytes)
          = some (some (Message.encode (.piece 1 0 [12]))))) = true := by
    decide +kernel
  obtain ⟨start, s, hstart, hrun, htest⟩ := exists_run_of_after? hdone
  obtain ⟨hphase, htest⟩ := Bool.and_eq_true_iff.mp htest
  obtain ⟨s', hstep, htest⟩ := (Option.any_eq_true _ _).mp htest
  obtain ⟨hcounted, hsent, hqueue⟩ := of_decide_eq_true htest
  obtain ⟨_, sent, hcourse, htally⟩ := uploads_exact hstart hrun hstep
  refine ⟨start, s, s', hstart, hrun, hstep, ?_, hsent, hqueue⟩
  cases hsome : sent with
  | none =>
      -- Then nothing would have been counted.
      rw [htally, hsome] at hcounted
      exact absurd rfl hcounted
  | some block =>
      rw [hsome] at hcourse
      obtain ⟨number, r, parcel, hsending, rfl⟩ : ∃ number r parcel,
          s.upload = .sending number r parcel ∧ block = (number, r.length.toNat) := by
        cases hcourse with
        | queued _ number r packet block m queue hsending => exact ⟨number, r, _, hsending, rfl⟩
      have hwaits := of_decide_eq_true hphase
      rw [sending?, hsending] at hwaits
      cases hwaits
      exact hcourse

end Session

end TorrentCore
