import TorrentCore.Proofs.Connection.Progress
import TorrentCore.Proofs.Session.Run
import TorrentCore.Proofs.Table

/-!
# The register of a session

Who is connected, how far each requester is, which pieces are reserved and from whom each was last
asked: this is the register of a session. Most of what the session does shows in it not at all, or
in one entry. `Shift` says once, for every event, what becomes of the register, and a `Move` is the
part of it that a requester makes. What is kept by all of these is kept by every run.
-/

namespace TorrentCore

/-- Where a requester goes on once what it is about to send was accepted. -/
def Requester.final : Requester → Requester
  | .sending _ after => after.final
  | r => r

/-- The part of a connection that its session reckons with. -/
structure Duty where
  fate : Fate
  link : Link
  requester : Requester
  closedOut : Bool

structure Register where
  infoHash : Identifier
  ownId : Identifier
  reservations : Reservations
  owners : Table Nat Identifier
  peers : Table Identifier Nat
  paused : Bool
  cancelled : Bool
  duty : Nat → Option Duty

namespace Duty

def tell (d : Duty) : Duty := { d with fate := { d.fate with cancelled := true } }

def finish (d : Duty) (result : Except Error Unit) : Duty :=
  { d with fate := ⟨d.fate.peerId, .ended result, true⟩, link := d.link.hangUp }

def assign (r : Requester) (d : Duty) : Duty := { d with requester := r }

def hasEnded (d : Duty) : Bool :=
  match d.fate.status with
  | .ended _ => true
  | _ => false

end Duty

namespace Register

def modify (r : Register) (number : Nat) (f : Duty → Duty) : Register :=
  { r with duty := fun n => if n = number then (r.duty number).map f else r.duty n }

def enter (r : Register) (number : Nat) (d : Duty) : Register :=
  { r with
    peers := r.peers.insert d.fate.peerId number
    duty := fun n => if n = number then some d else r.duty n }

def release (r : Register) (index : Nat) : Register :=
  { r with owners := r.owners.erase index, reservations := (r.reservations.release index).2 }

def releaseAll (r : Register) (indices : List Nat) : Register := indices.foldl release r

def closeOut (r : Register) (number : Nat) (peerId : Identifier) : Register :=
  releaseAll { r.modify number fun d => { d with requester := .retired, closedOut := true } with
      peers := if r.peers.get? peerId = some number then r.peers.erase peerId else r.peers }
    (r.owners.filter fun _ owner => owner == peerId).keys

theorem duty_modify (r : Register) (number n : Nat) (f : Duty → Duty) :
    (r.modify number f).duty n = if n = number then (r.duty number).map f else r.duty n := rfl

theorem duty_enter (r : Register) (number n : Nat) (d : Duty) :
    (r.enter number d).duty n = if n = number then some d else r.duty n := rfl

theorem releaseAll_eq (r : Register) (indices : List Nat) : ∃ reservations owners,
    r.releaseAll indices = { r with reservations := reservations, owners := owners } := by
  unfold releaseAll
  induction indices generalizing r with
  | nil => exact ⟨r.reservations, r.owners, rfl⟩
  | cons index indices ih => exact ih (r.release index)

theorem get?_of_releaseAll {r : Register} {indices : List Nat} {index : Nat} {owner : Identifier}
    (h : (r.releaseAll indices).owners.get? index = some owner) :
    r.owners.get? index = some owner := by
  unfold releaseAll at h
  induction indices generalizing r with
  | nil => exact h
  | cons first indices ih =>
      have hlater := ih (r := r.release first) h
      rw [release, Table.get?_erase] at hlater
      split at hlater
      · cases hlater
      · exact hlater

theorem closeOut_eq (r : Register) (number : Nat) (peerId : Identifier) :
    ∃ reservations owners, r.closeOut number peerId
      = { r.modify number fun d => { d with requester := .retired, closedOut := true } with
          peers := if r.peers.get? peerId = some number then r.peers.erase peerId else r.peers
          reservations := reservations, owners := owners } :=
  releaseAll_eq _ _

theorem duty_closeOut (r : Register) (number : Nat) (peerId : Identifier) :
    (r.closeOut number peerId).duty
      = (r.modify number fun d => { d with requester := .retired, closedOut := true }).duty := by
  obtain ⟨reservations, owners, heq⟩ := r.closeOut_eq number peerId
  rw [heq]

theorem peers_closeOut (r : Register) (number : Nat) (peerId : Identifier) :
    (r.closeOut number peerId).peers
      = if r.peers.get? peerId = some number then r.peers.erase peerId else r.peers := by
  obtain ⟨reservations, owners, heq⟩ := r.closeOut_eq number peerId
  rw [heq]

theorem modify_same {r : Register} {number : Nat} {f : Duty → Duty} {d : Duty}
    (hduty : r.duty number = some d) (hf : f d = d) : r.modify number f = r := by
  show Register.mk _ _ _ _ _ _ _ _ = Register.mk _ _ _ _ _ _ _ r.duty
  congr 1
  funext n
  split
  · next heq => rw [heq, hduty, Option.map_some, hf]
  · rfl

theorem modify_eq {r : Register} {number : Nat} {f g : Duty → Duty} {d : Duty}
    (hduty : r.duty number = some d) (hfg : f d = g d) : r.modify number f = r.modify number g := by
  show Register.mk _ _ _ _ _ _ _ _ = Register.mk _ _ _ _ _ _ _ _
  congr 1
  funext n
  rw [hduty, Option.map_some, Option.map_some, hfg]

end Register

namespace Session

open Connection

def duty (m : Member) : Duty := ⟨m.connection.fate, m.link, m.requester, m.closedOut⟩

def register (s : Session) : Register :=
  ⟨s.infoHash, s.ownId, s.reservations, s.owners, s.peers, s.paused, s.cancelled, fun number =>
    (s.members.get? number).map duty⟩

theorem register_modify (s : Session) (number : Nat) {f : Member → Member} {g : Duty → Duty}
    (h : ∀ m, duty (f m) = g (duty m)) :
    register { s with members := s.members.modify number f } = s.register.modify number g := by
  show Register.mk _ _ _ _ _ _ _ _ = Register.mk _ _ _ _ _ _ _ _
  congr 1
  funext n
  rw [Table.get?_modify]
  split
  · rw [register, Option.map_map, Option.map_map]
    congr 1
    funext m
    exact h m
  · rfl

theorem register_modify_same (s : Session) (number : Nat) {f : Member → Member}
    (h : ∀ m, duty (f m) = duty m) :
    register { s with members := s.members.modify number f } = s.register := by
  rw [register_modify s number (g := id) h]
  show Register.mk _ _ _ _ _ _ _ _ = Register.mk _ _ _ _ _ _ _ s.register.duty
  congr 1
  funext n
  split
  · next heq => rw [heq, Option.map_id, id]
  · rfl

@[simp] theorem register_setRequester (s : Session) (number : Nat) (r : Requester) :
    (s.setRequester number r).register = s.register.modify number (Duty.assign r) :=
  register_modify s number fun _ => rfl

@[simp] theorem register_disconnect (s : Session) (number : Nat) :
    (s.disconnect number).register = s.register.modify number Duty.tell :=
  register_modify s number fun _ => rfl

theorem duty_of_member {s : Session} {number : Nat} {m : Member}
    (hm : s.members.get? number = some m) : s.register.duty number = some (duty m) :=
  congrArg (Option.map duty) hm

theorem member_of_duty {s : Session} {number : Nat} {d : Duty}
    (hduty : s.register.duty number = some d) :
    ∃ m, s.members.get? number = some m ∧ duty m = d := Option.map_eq_some_iff.mp hduty

theorem duty_of_endpoint? {s : Session} {number : Nat} {e : Endpoint}
    (he : s.endpoint? number = some e) :
    ∃ d, s.register.duty number = some d ∧ d.fate = e.connection.fate ∧ d.link = e.link := by
  obtain ⟨m, hm, rfl⟩ := Option.map_eq_some_iff.mp he
  exact ⟨duty m, duty_of_member hm, rfl, rfl⟩

theorem register_putEndpoint (s : Session) (number : Nat) (e : Endpoint) :
    (s.putEndpoint number e).register
      = s.register.modify number fun d => { d with fate := e.connection.fate, link := e.link } :=
  register_modify { s with hub := e.hub } number fun _ => rfl

/-! ### Sending -/

theorem register_putEndpoint_same {s : Session} {number : Nat} {e e' : Endpoint}
    (he : s.endpoint? number = some e) (hfate : e'.connection.fate = e.connection.fate)
    (hlink : e'.link = e.link) : (s.putEndpoint number e').register = s.register := by
  obtain ⟨d, hduty, hd, hl⟩ := duty_of_endpoint? he
  rw [register_putEndpoint]
  refine Register.modify_same hduty ?_
  rw [hfate, hlink, ← hd, ← hl]

theorem register_of_sent {s s' : Session} {now : Nanoseconds} {late : Bool} {number : Nat}
    {p : Parcel}
    (h : s.deliver now late number p = .sent s') : s'.register = s.register := by
  unfold deliver at h
  split at h
  · cases h
  next e he =>
  split at h
  · next e' hsent =>
    cases h
    obtain ⟨hfate, hlink⟩ := Endpoint.fate_send_sent hsent
    exact register_putEndpoint_same he hfate hlink
  · cases h
  · cases h

theorem register_of_refused {s s' : Session} {now : Nanoseconds} {late : Bool} {number : Nat}
    {p : Parcel}
    (h : s.deliver now late number p = .refused s') : s'.register = s.register := by
  unfold deliver at h
  split at h
  · cases h
    rfl
  next e he =>
  split at h
  · cases h
  · cases h
  · next cause e' hrefused =>
    cases h
    obtain ⟨hconnection, hlink⟩ := Endpoint.fate_send_refused hrefused
    exact register_putEndpoint_same he (congrArg fate hconnection) hlink

theorem register_send {s s' : Session} {now : Nanoseconds} {late : Bool} {number : Nat}
    {m : Message}
    (h : s.send? now late number m = some s') : s'.register = s.register := by
  unfold send? at h
  split at h
  · next hsent =>
    cases h
    exact (register_of_sent hsent).trans rfl
  · next hrefused =>
    cases h
    exact (register_of_refused hrefused).trans rfl
  · cases h

theorem register_sendAnnouncement {s s' : Session} {now : Nanoseconds} {late : Bool}
    {position : Nat}
    (h : s.sendAnnouncement? now late position = some s') : s'.register = s.register := by
  unfold sendAnnouncement? at h
  split at h
  · cases h
  · simp only at h
    split at h
    · next hsent =>
      have hsame := register_of_sent hsent
      cases h
      exact hsame
    · next hrefused =>
      have hsame := register_of_refused hrefused
      cases h
      exact hsame
    · cases h

/-! ### Uploads and blocks -/

theorem register_serve (s : Session) (r : UploadRequest) :
    (s.serve r).register = s.register
      ∨ ∃ number, (s.serve r).register = s.register.modify number Duty.tell := by
  unfold serve
  repeat' split
  all_goals first
    | exact Or.inl rfl
    | exact Or.inr ⟨_, register_disconnect s _⟩

theorem register_pickUpload {s s' : Session} (h : s.pickUpload? = some s') :
    s'.register = s.register ∨ ∃ number, s'.register = s.register.modify number Duty.tell := by
  unfold pickUpload? at h
  split at h
  · split at h
    · cases h
    · simp only at h
      split at h
      · cases h
        exact Or.inl rfl
      · cases h
        exact register_serve _ _
  · cases h

theorem register_readUpload {s s' : Session} (h : s.readUpload? = some s') :
    s'.register = s.register := by
  unfold readUpload? at h
  split at h
  · simp only at h
    split at h <;> cases h <;> rfl
  · cases h

theorem register_sendUpload {s s' : Session} {now : Nanoseconds} {late : Bool}
    (h : s.sendUpload? now late = some s') : s'.register = s.register := by
  unfold sendUpload? at h
  split at h
  · split at h
    · next sent hsent =>
      have hsame := register_of_sent hsent
      cases h
      refine Eq.trans ?_ hsame
      unfold noteUploaded
      refine Eq.trans (register_modify_same { sent with upload := .idle, counters := _ } _ ?_) rfl
      exact fun _ => rfl
    · next hrefused =>
      have hsame := register_of_refused hrefused
      cases h
      exact hsame
    · cases h
  · cases h

@[simp] theorem register_noteDiscarded (s : Session) (sender : Identifier) :
    (s.noteDiscarded sender).register = s.register := by
  unfold noteDiscarded
  split
  · exact register_modify_same s _ fun _ => rfl
  · rfl

theorem register_addBlock (s : Session) (b : Block) : (s.addBlock b).2.register = s.register := by
  unfold addBlock
  repeat' split
  · rfl
  · rfl
  · rfl
  · simp only
    split
    · exact register_noteDiscarded _ _
    · split <;> rfl

theorem register_consume {s s' : Session} (h : s.consume? = some s') :
    s'.register = s.register := by
  unfold consume? at h
  split at h
  · cases h
  split at h
  · cases h
  next block blocks _ =>
  cases h
  exact (register_addBlock { s with hub := { s.hub with blocks := blocks } } block).trans rfl

/-! ### Finishing pieces and closing out -/

@[simp] theorem register_announce (s : Session) (index : Nat) :
    (s.announce index).register = s.register := by
  unfold announce
  generalize s.peers.values = numbers
  induction numbers generalizing s with
  | nil => rfl
  | cons number numbers ih =>
      rw [List.foldl_cons, ih]
      split
      · split <;> rfl
      · rfl

@[simp] theorem register_markOwned (s : Session) (piece : AssembledPiece) :
    (s.markOwned piece).register = s.register := by
  unfold markOwned
  split
  · exact register_announce _ _
  · rfl

theorem register_finishPiece {s s' : Session} (h : s.finishPiece? = some s') :
    ∃ piece, s.verifying = some piece
      ∧ s'.register = if s.cancelled then s.register else s.register.release piece.piece := by
  unfold finishPiece? at h
  split at h
  · cases h
  next piece hverifying =>
  refine ⟨piece, hverifying, ?_⟩
  simp only at h
  split at h
  · next hcancelled =>
    cases h
    rw [if_pos hcancelled]
    rfl
  · next hcancelled =>
    cases h
    rw [if_neg hcancelled]
    cases s.verdict piece with
    | stored storage => exact register_markOwned _ piece
    | mismatch | notStored _ => rfl

theorem register_releaseOwned (s : Session) (peerId : Identifier) :
    (s.releaseOwned peerId).register
      = s.register.releaseAll (s.owners.filter fun _ owner => owner == peerId).keys := by
  unfold releaseOwned Register.releaseAll
  generalize (s.owners.filter fun _ owner => owner == peerId).keys = indices
  induction indices generalizing s with
  | nil => rfl
  | cons index indices ih => exact ih (s.releasePiece index)

theorem dropRequester_eq (s : Session) (r : Requester) :
    ∃ hub, s.dropRequester r = { s with hub := hub } := by
  cases r with
  | sending parcel after => exact ⟨s.hub.unpack parcel, rfl⟩
  | _ => exact ⟨s.hub, rfl⟩

theorem register_closeOut {s s' : Session} {number : Nat} (h : s.closeOut? number = some s') :
    ∃ d, s.register.duty number = some d ∧ d.hasEnded = true ∧ d.closedOut = false
      ∧ s'.register = s.register.closeOut number d.fate.peerId := by
  unfold closeOut? at h
  split at h
  · cases h
  next m hm =>
  split at h
  · cases h
  next hopen =>
  rw [Bool.not_eq_true, Bool.or_eq_false_iff, Bool.not_eq_false'] at hopen
  cases h
  refine ⟨duty m, duty_of_member hm, hopen.2, hopen.1, ?_⟩
  refine (register_releaseOwned _ m.connection.peerId).trans ?_
  obtain ⟨hub, hdropped⟩ := dropRequester_eq s m.requester
  rw [hdropped]
  have hmembers := register_modify s number
    (f := fun m => { m with requester := .retired, closedOut := true })
    (g := fun d => { d with requester := .retired, closedOut := true }) fun _ => rfl
  rw [Register.closeOut, ← hmembers]
  rfl

theorem register_addPeer {s s' : Session} {now : Nanoseconds} {number : Nat} {link : Link}
    {address : Address} {h : Handshake} {buffer : ReadBuffer}
    (hadd : s.addPeer now number link address h buffer = .ok s') :
    h.peerId ≠ s.ownId ∧ s.peers.get? h.peerId = none
      ∧ s'.register
        = s.register.enter number ⟨⟨h.peerId, .running, s.cancelled⟩, link, .greeting, false⟩ := by
  unfold addPeer at hadd
  split at hadd
  · cases hadd
  next hother =>
  split at hadd
  · cases hadd
  next hfirst =>
  rw [Table.contains, Bool.not_eq_true, Option.isSome_eq_false_iff, Option.isNone_iff_eq_none]
    at hfirst
  cases hadd
  refine ⟨hother, hfirst, ?_⟩
  show Register.mk _ _ _ _ _ _ _ _ = Register.mk _ _ _ _ _ _ _ _
  congr 1
  funext n
  rw [Table.get?_insert]
  split
  · rfl
  · rfl

theorem register_dropAllPeers (s : Session) :
    s.dropAllPeers.register
      = { s.peers.values.foldl (fun r number => r.modify number Duty.tell) s.register with
          peers := .empty } := by
  show { (s.peers.values.foldl disconnect s).register with peers := .empty } = _
  generalize s.peers.values = numbers
  induction numbers generalizing s with
  | nil => rfl
  | cons number numbers ih =>
      rw [List.foldl_cons, List.foldl_cons, ih, register_disconnect]

theorem register_shutdown (s : Session) :
    s.shutdown.register = { s.register with
      cancelled := true
      peers := .empty
      duty := fun number => (s.register.duty number).map Duty.tell } := by
  show Register.mk _ _ _ _ _ _ _ _ = Register.mk _ _ _ _ _ _ _ _
  congr 1
  funext number
  have hfound := Table.find?_map_values s.members.entries number fun m : Member =>
    { m with connection := m.connection.disconnect }
  refine (congrArg (Option.map duty) hfound).trans ?_
  rw [register, Option.map_map, Option.map_map]
  rfl

end Session

end TorrentCore
