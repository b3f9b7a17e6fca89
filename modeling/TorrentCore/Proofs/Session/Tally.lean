import TorrentCore.Proofs.Connection.Tally
import TorrentCore.Proofs.Session.Run
import TorrentCore.Proofs.Table

/-!
# Who counts uploads

The tally of a session is what was uploaded, in all and to each of its connections. A step passes
the uploads if it leaves the tally and the uploader as they are, and the pool of packets clean. All
steps do so but those of the uploader itself, and the end of the session, which takes its work from
the uploader. So whatever is said of uploads has to be checked against the steps of the uploader
only.
-/

namespace TorrentCore

/-- What was uploaded: bytes in all, and bytes and blocks to each connection. -/
structure Tally where
  bytes : UInt64
  sentTo : Nat → UInt64 × UInt32

def Tally.note (t : Tally) : Option (Nat × Nat) → Tally
  | none => t
  | some (number, length) =>
    { bytes := t.bytes + UInt64.ofNat length
      sentTo := fun n => if n = number
        then ((t.sentTo number).1 + UInt64.ofNat length, (t.sentTo number).2 + 1)
        else t.sentTo n }

namespace Session

def tally (s : Session) : Tally where
  bytes := s.counters.uploadedBytes
  sentTo number := ((s.members.get? number).map fun m => m.connection.counters.uploads).getD (0, 0)

theorem sentTo_tally (s : Session) (number : Nat) : s.tally.sentTo number
    = ((s.members.get? number).map fun m => m.connection.counters.uploads).getD (0, 0) := rfl

structure Passes (s s' : Session) : Prop where
  upload_eq : s'.upload = s.upload
  tally_eq : s'.tally = s.tally
  clean : s.hub.packetPool.Clean → s'.hub.packetPool.Clean

theorem Passes.refl (s : Session) : s.Passes s := ⟨rfl, rfl, id⟩

theorem Passes.trans {s s' s'' : Session} (h : s.Passes s') (h' : s'.Passes s'') : s.Passes s'' :=
  ⟨h'.upload_eq.trans h.upload_eq, h'.tally_eq.trans h.tally_eq,
    fun hclean => h'.clean (h.clean hclean)⟩

theorem tally_modify (s : Session) (number : Nat) {f : Member → Member}
    (h : ∀ m, (f m).connection.counters.uploads = m.connection.counters.uploads) :
    tally { s with members := s.members.modify number f } = s.tally := by
  show Tally.mk _ _ = Tally.mk _ s.tally.sentTo
  congr 1
  funext n
  rw [Table.get?_modify, sentTo_tally]
  split
  · next heq =>
    rw [heq, Option.map_map]
    congr 2
    funext m
    exact h m
  · rfl

theorem passes_modify (s : Session) (number : Nat) {f : Member → Member}
    (h : ∀ m, (f m).connection.counters.uploads = m.connection.counters.uploads) :
    s.Passes { s with members := s.members.modify number f } :=
  ⟨rfl, tally_modify s number h, id⟩

theorem passes_setRequester (s : Session) (number : Nat) (r : Requester) :
    s.Passes (s.setRequester number r) := passes_modify s number fun _ => rfl

theorem passes_disconnect (s : Session) (number : Nat) : s.Passes (s.disconnect number) :=
  passes_modify s number fun _ => rfl

theorem passes_giveBackAll (s : Session) (packets : List Buffer) :
    s.Passes { s with hub :=
      { s.hub with packetPool := s.hub.packetPool.giveBackAll packets } } :=
  ⟨rfl, rfl, fun hclean => hclean.giveBackAll packets⟩

/-! ### Connections -/

theorem sentTo_putEndpoint {s : Session} {number : Nat} {e : Endpoint}
    (he : s.endpoint? number = some e) (e' : Endpoint) (n : Nat) :
    (s.putEndpoint number e').tally.sentTo n
      = if n = number then e'.connection.counters.uploads else s.tally.sentTo n := by
  obtain ⟨m, hm, rfl⟩ := Option.map_eq_some_iff.mp he
  rw [sentTo_tally, putEndpoint, Table.get?_modify, hm]
  split <;> rfl

theorem passes_putEndpoint {s : Session} {number : Nat} {e e' : Endpoint}
    (he : s.endpoint? number = some e) (h : e.Passes e') : s.Passes (s.putEndpoint number e') := by
  have hbefore : s.tally.sentTo number = e.connection.counters.uploads := by
    obtain ⟨m, hm, rfl⟩ := Option.map_eq_some_iff.mp he
    rw [sentTo_tally, hm]
    rfl
  obtain ⟨m, _, rfl⟩ := Option.map_eq_some_iff.mp he
  refine ⟨rfl, ?_, h.clean⟩
  show Tally.mk _ (s.putEndpoint number e').tally.sentTo = Tally.mk _ s.tally.sentTo
  congr 1
  funext n
  rw [sentTo_putEndpoint he]
  split
  · next heq => rw [heq, hbefore, h.uploads_eq]
  · rfl

theorem passes_connectionStep {s s' : Session} {number : Nat} {step : Endpoint → Option Endpoint}
    (hstep : ∀ e e', step e = some e' → e.Passes e')
    (h : s.connectionStep? number step = some s') : s.Passes s' := by
  unfold connectionStep? at h
  split at h
  · cases h
  next e he =>
  obtain ⟨e', he', rfl⟩ := Option.map_eq_some_iff.mp h
  exact passes_putEndpoint he (hstep e e' he')

theorem passes_of_sent {s s' : Session} {now : Nanoseconds} {late : Bool} {number : Nat}
    {p : Parcel}
    (h : s.deliver now late number p = .sent s') : s.Passes s' := by
  unfold deliver at h
  split at h
  · cases h
  next e he =>
  split at h
  · next e' hsent =>
    cases h
    exact passes_putEndpoint he (Endpoint.passes_of_sent hsent)
  · cases h
  · cases h

theorem passes_of_refused {s s' : Session} {now : Nanoseconds} {late : Bool} {number : Nat}
    {p : Parcel}
    (h : s.deliver now late number p = .refused s') : s.Passes s' := by
  unfold deliver at h
  split at h
  · cases h
    exact passes_giveBackAll s [p.packet]
  next e he =>
  split at h
  · cases h
  · cases h
  · next cause e' hrefused =>
    cases h
    exact passes_putEndpoint he (Endpoint.passes_of_refused hrefused)

theorem passes_pack (s : Session) (m : Message) : s.Passes { s with hub := (s.hub.pack m).2 } :=
  ⟨rfl, rfl, fun hclean => (Hub.bytes_pack hclean m).2⟩

theorem passes_send {s s' : Session} {now : Nanoseconds} {late : Bool} {number : Nat} {m : Message}
    (h : s.send? now late number m = some s') : s.Passes s' := by
  unfold send? at h
  split at h
  · next hsent =>
    cases h
    exact (passes_pack s m).trans (passes_of_sent hsent)
  · next hrefused =>
    cases h
    exact (passes_pack s m).trans (passes_of_refused hrefused)
  · cases h

/-! ### Requesters -/

theorem passes_ask (s : Session) (number : Nat) (m : Message) (after : Requester) :
    s.Passes (s.ask number m after) := (passes_pack s m).trans (passes_setRequester _ number _)

theorem passes_tell (s : Session) (number : Nat) (c : Connection) (interested : Bool)
    (after : Requester) : s.Passes (s.tell number c interested after) := by
  unfold tell
  split
  · exact passes_setRequester s number after
  · exact passes_ask s number _ after

theorem passes_choose (s : Session) (number : Nat) (c : Connection) (coins : List Bool) :
    s.Passes (s.choose number c coins) := by
  unfold choose
  split
  · exact passes_tell s number c false .parting
  · split
    · exact passes_setRequester s number .retired
    · split
      · exact passes_tell s number c true _
      · exact passes_tell s number c _ .resting

theorem passes_claim (s : Session) (now : Nanoseconds) (number : Nat) (c : Connection)
    (index : Nat) : s.Passes (s.claim now number c index) := by
  unfold claim
  split
  · exact passes_setRequester s number .awaitingUnchoke
  · split
    · exact passes_setRequester s number .choosing
    · simp only
      split
      · exact passes_setRequester s number .choosing
      · refine Passes.trans ?_ (passes_setRequester _ number _)
        exact ⟨rfl, rfl, id⟩

theorem passes_request {s s' : Session} {now : Nanoseconds} {number : Nat} {coins : List Bool}
    (h : s.request? now number coins = some s') : s.Passes s' := by
  unfold request? at h
  split at h
  · cases h
  next m _ =>
  simp only at h
  split at h
  · cases h
  cases hphase : m.requester with
  | sending parcel after =>
      rw [hphase] at h
      simp only at h
      split at h
      · next hsent =>
        cases h
        exact (passes_of_sent hsent).trans (passes_setRequester _ number _)
      · next hrefused =>
        cases h
        exact ((passes_of_refused hrefused).trans (passes_setRequester _ number _)).trans
          (passes_disconnect _ number)
      · cases h
  | choosing =>
      rw [hphase] at h
      cases h
      exact passes_choose s number m.connection coins
  | claiming index =>
      rw [hphase] at h
      cases h
      exact passes_claim s now number m.connection index
  | parting =>
      rw [hphase] at h
      cases h
      split
      · exact (passes_setRequester s number _).trans (passes_disconnect _ number)
      · exact passes_setRequester s number _
  | _ =>
      -- What is left sends a message or goes on at once.
      rw [hphase] at h
      simp only at h
      repeat' split at h
      all_goals cases h
      all_goals first
        | exact passes_setRequester s number _
        | exact passes_ask s number _ _

/-! ### Blocks and pieces -/

theorem passes_noteDiscarded (s : Session) (sender : Identifier) :
    s.Passes (s.noteDiscarded sender) := by
  unfold noteDiscarded
  split
  · exact passes_modify s _ fun _ => rfl
  · exact .refl s

theorem passes_addBlock (s : Session) (b : Block) : s.Passes (s.addBlock b).2 := by
  unfold addBlock
  repeat' split
  · exact ⟨rfl, rfl, id⟩
  · exact ⟨rfl, rfl, id⟩
  · exact ⟨rfl, rfl, id⟩
  · simp only
    split
    · refine Passes.trans ?_ (passes_noteDiscarded _ b.sender)
      exact ⟨rfl, rfl, id⟩
    · split <;> exact ⟨rfl, rfl, id⟩

theorem passes_consume {s s' : Session} (h : s.consume? = some s') : s.Passes s' := by
  unfold consume? at h
  split at h
  · cases h
  split at h
  · cases h
  next block blocks _ =>
  cases h
  obtain ⟨hupload, htally, hclean⟩ :=
    passes_addBlock { s with hub := { s.hub with blocks := blocks } } block
  exact ⟨hupload, htally, hclean⟩

theorem passes_announce (s : Session) (index : Nat) : s.Passes (s.announce index) := by
  unfold announce
  generalize s.peers.values = numbers
  induction numbers generalizing s with
  | nil => exact .refl s
  | cons number numbers ih =>
      rw [List.foldl_cons]
      refine Passes.trans ?_ (ih _)
      split
      · split
        · exact .refl s
        · obtain ⟨hupload, htally, hclean⟩ := passes_pack s (.has (UInt32.ofNat index))
          exact ⟨hupload, htally, hclean⟩
      · exact .refl s

theorem passes_markOwned (s : Session) (piece : AssembledPiece) :
    s.Passes (s.markOwned piece) := by
  unfold markOwned
  split
  · refine Passes.trans ?_ (passes_announce _ piece.piece)
    exact ⟨rfl, rfl, id⟩
  · exact .refl s

theorem passes_finishPiece {s s' : Session} (h : s.finishPiece? = some s') : s.Passes s' := by
  unfold finishPiece? at h
  split at h
  · cases h
  next piece _ =>
  simp only at h
  split at h
  · cases h
    exact ⟨rfl, rfl, id⟩
  cases h
  -- Only marking the piece can do anything to the packets.
  have hdone : ∀ r : Session, r.Passes r.notePieceDone := fun r => ⟨rfl, rfl, id⟩
  refine Passes.trans ?_ (hdone _)
  split
  · refine Passes.trans ?_ (passes_markOwned _ piece)
    exact ⟨rfl, rfl, id⟩
  · exact ⟨rfl, rfl, id⟩
  · exact ⟨rfl, rfl, id⟩

/-! ### Joining and leaving -/

theorem passes_sendAnnouncement {s s' : Session} {now : Nanoseconds} {late : Bool} {position : Nat}
    (h : s.sendAnnouncement? now late position = some s') : s.Passes s' := by
  unfold sendAnnouncement? at h
  split at h
  · cases h
  · simp only at h
    split at h
    · next hsent =>
      cases h
      obtain ⟨hupload, htally, hclean⟩ := passes_of_sent hsent
      exact ⟨hupload, htally, hclean⟩
    · next hrefused =>
      cases h
      obtain ⟨hupload, htally, hclean⟩ := passes_of_refused hrefused
      exact ⟨hupload, htally, hclean⟩
    · cases h

theorem passes_releaseOwned (s : Session) (peerId : Identifier) :
    s.Passes (s.releaseOwned peerId) := by
  unfold releaseOwned
  simp only
  generalize (s.owners.filter fun _ owner => owner == peerId).keys = indices
  induction indices generalizing s with
  | nil => exact .refl s
  | cons index indices ih =>
      refine Passes.trans ?_ (ih (s.releasePiece index))
      exact ⟨rfl, rfl, id⟩

theorem passes_dropRequester (s : Session) (r : Requester) : s.Passes (s.dropRequester r) := by
  unfold dropRequester
  split
  · next parcel _ => exact passes_giveBackAll s [parcel.packet]
  · exact .refl s

theorem passes_closeOut {s s' : Session} {number : Nat} (h : s.closeOut? number = some s') :
    s.Passes s' := by
  unfold closeOut? at h
  split at h
  · cases h
  next m _ =>
  split at h
  · cases h
  cases h
  have hdropped := passes_dropRequester s m.requester
  generalize s.dropRequester m.requester = dropped at hdropped
  have hclosed := passes_modify dropped number
    (f := fun m => { m with requester := .retired, closedOut := true }) fun _ => rfl
  have hreleased := passes_releaseOwned { dropped with
    members := dropped.members.modify number fun m =>
      { m with requester := .retired, closedOut := true }
    peers := if dropped.peers.get? m.connection.peerId = some number
      then dropped.peers.erase m.connection.peerId else dropped.peers } m.connection.peerId
  obtain ⟨hupload, htally, hclean⟩ := hdropped.trans (hclosed.trans ⟨hreleased.upload_eq,
    hreleased.tally_eq, hreleased.clean⟩)
  exact ⟨hupload, htally, hclean⟩

theorem passes_expire {s s' : Session} {now : Nanoseconds} (h : s.expire? now = some s') :
    s.Passes s' := by
  unfold expire? at h
  split at h
  · cases h
  · obtain ⟨⟨expiry, reservations⟩, _, rfl⟩ := Option.map_eq_some_iff.mp h
    exact ⟨rfl, rfl, id⟩

theorem passes_addPeer {s s' : Session} {now : Nanoseconds} {number : Nat} {link : Link}
    {address : Address} {h : Handshake} {buffer : ReadBuffer}
    (hfresh : s.members.get? number = none)
    (hadd : s.addPeer now number link address h buffer = .ok s') : s.Passes s' := by
  unfold addPeer at hadd
  split at hadd
  · cases hadd
  split at hadd
  · cases hadd
  cases hadd
  refine ⟨rfl, ?_, id⟩
  show Tally.mk _ _ = Tally.mk _ s.tally.sentTo
  congr 1
  funext n
  rw [Table.get?_insert, sentTo_tally]
  split
  · next heq =>
    rw [heq, hfresh]
    rfl
  · rfl

theorem passes_dropAllPeers (s : Session) : s.Passes s.dropAllPeers := by
  have htold : ∀ (numbers : List Nat) (r : Session), r.Passes (numbers.foldl disconnect r) := by
    intro numbers
    induction numbers with
    | nil => exact Passes.refl
    | cons number numbers ih =>
        exact fun r => (passes_disconnect r number).trans (ih (r.disconnect number))
  obtain ⟨hupload, htally, hclean⟩ := htold s.peers.values s
  exact ⟨hupload, htally, hclean⟩

theorem tally_shutdown (s : Session) : s.shutdown.tally = s.tally := by
  show Tally.mk _ _ = Tally.mk _ s.tally.sentTo
  congr 1
  funext n
  have hfound := Table.find?_map_values s.members.entries n fun m : Member =>
    { m with connection := m.connection.disconnect }
  refine (congrArg (fun found => (Option.map (fun m : Member =>
    m.connection.counters.uploads) found).getD (0, 0)) hfound).trans ?_
  rw [Option.map_map]
  rfl

/-! ### Events -/

def Event.isUpload : Event → Bool
  | .own .pickUpload | .own .readUpload | .own (.sendUpload _) => true
  | _ => false

/-- Every event passes the uploads but the steps of the uploader and the end of the session. -/
theorem passes_happen {now : Nanoseconds} {s s' : Session} {event : Event}
    (hother : event.isUpload = false) (hopen : event ≠ .shutdown)
    (h : s.happen? now event = some s') : s.Passes s' := by
  cases event with
  | own action =>
      cases action with
      | stop number => exact passes_connectionStep (fun _ _ => Endpoint.passes_stop) h
      | receive number => exact passes_connectionStep (fun _ _ => Endpoint.passes_receive) h
      | transmit number => exact passes_connectionStep (fun _ _ => Endpoint.passes_transmit) h
      | closeOut number => exact passes_closeOut h
      | request number coins => exact passes_request h
      | announce position late => exact passes_sendAnnouncement h
      | consume => exact passes_consume h
      | finishPiece => exact passes_finishPiece h
      | expire => exact passes_expire h
      | pickUpload | readUpload | sendUpload late => cases hother
  | connect number link address handshake buffer =>
      rw [happen?] at h
      split at h
      · cases h
      next hfresh =>
      rw [Option.not_isSome_iff_eq_none] at hfresh
      cases hadd : s.addPeer now number link address handshake buffer with
      | ok added =>
          rw [hadd] at h
          cases h
          exact passes_addPeer hfresh hadd
      | error e =>
          rw [hadd] at h
          cases h
  | farEnd number link =>
      cases h
      exact passes_modify s number fun _ => rfl
  | disconnect number =>
      cases h
      exact passes_disconnect s number
  | send number m late => exact passes_send h
  | dropAllPeers =>
      cases h
      exact passes_dropAllPeers s
  | addAddress a =>
      cases h
      unfold addAddress
      split <;> exact ⟨rfl, rfl, id⟩
  | shutdown => exact absurd rfl hopen
  | pause | resume | removeFinishedPeers | startConnecting a | doneConnecting a =>
      cases h
      exact ⟨rfl, rfl, id⟩

end Session

end TorrentCore
