import Mathlib.Data.List.Nodup
import TorrentCore.Proofs.Session.Run

/-!
# What a session knows of addresses

The addresses that were heard of and those that are being dialed are told to a session, and nothing
that a session does by itself changes them.
-/

namespace TorrentCore

/-- The part of a session that says which addresses there are. -/
structure AddressBook where
  discovered : List Address
  connecting : List Address

def AddressBook.after (b : AddressBook) : Session.Event → AddressBook
  | .addAddress a =>
    if b.discovered.contains a then b else { b with discovered := b.discovered ++ [a] }
  | .startConnecting a => { b with connecting := b.connecting ++ [a] }
  | .doneConnecting a => { b with connecting := b.connecting.filter (· != a) }
  | _ => b

namespace Session

variable {s s' : Session} {now : Nanoseconds} {late : Bool} {number : Nat}

def addressBook (s : Session) : AddressBook := ⟨s.discovered, s.connecting⟩

/-! ### Sending -/

theorem addressBook_of_sent {p : Parcel} (h : s.deliver now late number p = .sent s') :
    s'.addressBook = s.addressBook := by
  unfold deliver at h
  repeat' split at h
  all_goals cases h
  rfl

theorem addressBook_of_refused {p : Parcel} (h : s.deliver now late number p = .refused s') :
    s'.addressBook = s.addressBook := by
  unfold deliver at h
  repeat' split at h
  all_goals cases h
  all_goals rfl

theorem addressBook_send {m : Message} (h : s.send? now late number m = some s') :
    s'.addressBook = s.addressBook := by
  unfold send? at h
  split at h
  · next hsent =>
    have hsame := addressBook_of_sent hsent
    cases h
    exact hsame
  · next hrefused =>
    have hsame := addressBook_of_refused hrefused
    cases h
    exact hsame
  · cases h

theorem addressBook_sendAnnouncement {position : Nat}
    (h : s.sendAnnouncement? now late position = some s') : s'.addressBook = s.addressBook := by
  unfold sendAnnouncement? at h
  split at h
  · cases h
  simp only at h
  split at h
  · next hsent =>
    have hsame := addressBook_of_sent hsent
    cases h
    exact hsame
  · next hrefused =>
    have hsame := addressBook_of_refused hrefused
    cases h
    exact hsame
  · cases h

/-! ### Requesters -/

theorem addressBook_tell (s : Session) (number : Nat) (c : Connection) (interested : Bool)
    (after : Requester) : (s.tell number c interested after).addressBook = s.addressBook := by
  unfold tell
  split <;> rfl

theorem addressBook_choose (s : Session) (number : Nat) (c : Connection) (coins : List Bool) :
    (s.choose number c coins).addressBook = s.addressBook := by
  unfold choose
  repeat' split
  all_goals first
    | rfl
    | exact addressBook_tell s number c _ _

theorem addressBook_claim (s : Session) (now : Nanoseconds) (number : Nat) (c : Connection)
    (index : Nat) : (s.claim now number c index).addressBook = s.addressBook := by
  unfold claim
  simp only
  repeat' split
  all_goals rfl

theorem addressBook_request {coins : List Bool} (h : s.request? now number coins = some s') :
    s'.addressBook = s.addressBook := by
  unfold request? at h
  split at h
  · cases h
  next m _ =>
  simp only at h
  split at h
  · cases h
  cases hphase : m.requester with
  | sending parcel after =>
      rw [hphase] at h
      simp only at h
      split at h
      · next hsent =>
        have hsame := addressBook_of_sent hsent
        cases h
        exact hsame
      · next hrefused =>
        have hsame := addressBook_of_refused hrefused
        cases h
        exact hsame
      · cases h
  | choosing =>
      rw [hphase] at h
      cases h
      exact addressBook_choose s number m.connection coins
  | claiming index =>
      rw [hphase] at h
      cases h
      exact addressBook_claim s now number m.connection index
  | _ =>
      rw [hphase] at h
      simp only at h
      repeat' split at h
      all_goals cases h
      all_goals rfl

/-! ### Uploads and pieces -/

theorem addressBook_serve (s : Session) (r : UploadRequest) :
    (s.serve r).addressBook = s.addressBook := by
  unfold serve
  repeat' split
  all_goals rfl

theorem addressBook_pickUpload (h : s.pickUpload? = some s') : s'.addressBook = s.addressBook := by
  unfold pickUpload? at h
  split at h
  · split at h
    · cases h
    · simp only at h
      split at h
      · cases h
        rfl
      · cases h
        exact addressBook_serve _ _
  · cases h

theorem addressBook_readUpload (h : s.readUpload? = some s') : s'.addressBook = s.addressBook := by
  unfold readUpload? at h
  simp only at h
  repeat' split at h
  all_goals cases h
  all_goals rfl

theorem addressBook_sendUpload (h : s.sendUpload? now late = some s') :
    s'.addressBook = s.addressBook := by
  unfold sendUpload? at h
  split at h
  · split at h
    · next hsent =>
      have hsame := addressBook_of_sent hsent
      cases h
      exact hsame
    · next hrefused =>
      have hsame := addressBook_of_refused hrefused
      cases h
      exact hsame
    · cases h
  · cases h

theorem addressBook_noteDiscarded (s : Session) (sender : Identifier) :
    (s.noteDiscarded sender).addressBook = s.addressBook := by
  unfold noteDiscarded
  split <;> rfl

theorem addressBook_addBlock (s : Session) (b : Block) :
    (s.addBlock b).2.addressBook = s.addressBook := by
  unfold addBlock
  simp only
  repeat' split
  all_goals first
    | rfl
    | exact addressBook_noteDiscarded _ _

theorem addressBook_consume (h : s.consume? = some s') : s'.addressBook = s.addressBook := by
  unfold consume? at h
  split at h
  · cases h
  split at h
  · cases h
  next block blocks _ =>
  cases h
  exact (addressBook_addBlock { s with hub := { s.hub with blocks := blocks } } block).trans rfl

theorem addressBook_announce (s : Session) (index : Nat) :
    (s.announce index).addressBook = s.addressBook := by
  unfold announce
  generalize s.peers.values = numbers
  induction numbers generalizing s with
  | nil => rfl
  | cons number numbers ih =>
      rw [List.foldl_cons, ih]
      repeat' split
      all_goals rfl

theorem addressBook_finishPiece (h : s.finishPiece? = some s') :
    s'.addressBook = s.addressBook := by
  unfold finishPiece? at h
  split at h
  · cases h
  simp only at h
  split at h
  · cases h
    rfl
  cases h
  rw [notePieceDone]
  split
  · unfold markOwned
    split
    · exact addressBook_announce _ _
    · rfl
  · rfl
  · rfl

theorem addressBook_releaseOwned (s : Session) (peerId : Identifier) :
    (s.releaseOwned peerId).addressBook = s.addressBook := by
  unfold releaseOwned
  generalize (s.owners.filter fun _ owner => owner == peerId).keys = indices
  induction indices generalizing s with
  | nil => rfl
  | cons index indices ih => exact ih (s.releasePiece index)

theorem addressBook_closeOut (h : s.closeOut? number = some s') :
    s'.addressBook = s.addressBook := by
  unfold closeOut? at h
  split at h
  · cases h
  next m _ =>
  split at h
  · cases h
  cases h
  refine (addressBook_releaseOwned _ m.connection.peerId).trans ?_
  cases m.requester <;> rfl

/-! ### Events -/

theorem addressBook_act {action : Action} (h : s.act? now action = some s') :
    s'.addressBook = s.addressBook := by
  have hconnection : ∀ {number : Nat} {step : Endpoint → Option Endpoint},
      s.connectionStep? number step = some s' → s'.addressBook = s.addressBook := by
    intro number step h
    unfold connectionStep? at h
    split at h
    · cases h
    · obtain ⟨e, _, rfl⟩ := Option.map_eq_some_iff.mp h
      rfl
  cases action with
  | stop number | receive number | transmit number => exact hconnection h
  | closeOut number => exact addressBook_closeOut h
  | request number coins => exact addressBook_request h
  | announce position late => exact addressBook_sendAnnouncement h
  | consume => exact addressBook_consume h
  | finishPiece => exact addressBook_finishPiece h
  | pickUpload => exact addressBook_pickUpload h
  | readUpload => exact addressBook_readUpload h
  | sendUpload late => exact addressBook_sendUpload h
  | expire =>
      rw [act?, expire?] at h
      split at h
      · cases h
      · obtain ⟨_, _, rfl⟩ := Option.map_eq_some_iff.mp h
        rfl

theorem addressBook_addPeer {link : Link} {address : Address} {h : Handshake} {buffer : ReadBuffer}
    (hadd : s.addPeer now number link address h buffer = .ok s') :
    s'.addressBook = s.addressBook := by
  unfold addPeer at hadd
  repeat' split at hadd
  all_goals cases hadd
  rfl

theorem addressBook_dropAllPeers (s : Session) : s.dropAllPeers.addressBook = s.addressBook := by
  show (s.peers.values.foldl disconnect s).addressBook = s.addressBook
  generalize s.peers.values = numbers
  induction numbers generalizing s with
  | nil => rfl
  | cons number numbers ih => exact ih (s.disconnect number)

theorem addressBook_of_happen {event : Event} (h : s.happen? now event = some s') :
    s'.addressBook = s.addressBook.after event := by
  cases event with
  | own action => exact addressBook_act h
  | connect number link address handshake buffer =>
      rw [happen?] at h
      split at h
      · cases h
      cases hadd : s.addPeer now number link address handshake buffer with
      | ok added =>
          rw [hadd] at h
          cases h
          exact addressBook_addPeer hadd
      | error e =>
          rw [hadd] at h
          cases h
  | send number m late => exact addressBook_send h
  | dropAllPeers =>
      cases h
      exact addressBook_dropAllPeers s
  | addAddress a =>
      cases h
      show (s.addAddress a).2.addressBook
        = if s.discovered.contains a then s.addressBook
          else { s.addressBook with discovered := s.discovered ++ [a] }
      unfold addAddress
      split <;> rfl
  | farEnd _ _ | disconnect _ | pause | resume | removeFinishedPeers | startConnecting _
  | doneConnecting _ | shutdown =>
      cases h
      rfl

theorem addressBook_of_make {ownId : Identifier} {t : TorrentSource}
    {connectionOptions : ConnectionOptions} {policy : ReservationPolicy}
    (h : make ownId t connectionOptions policy = .ok s) : s.addressBook = ⟨[], []⟩ := by
  unfold make at h
  simp only [bind, Except.bind, pure, Except.pure, throw, throwThe, MonadExceptOf.throw] at h
  repeat' split at h
  all_goals cases h
  all_goals rfl

theorem nodup_discovered_of_happen {event : Event} (h : s.happen? now event = some s')
    (hnodup : s.discovered.Nodup) : s'.discovered.Nodup := by
  have hbook : s'.discovered = (s.addressBook.after event).discovered :=
    congrArg AddressBook.discovered (addressBook_of_happen h)
  rw [hbook]
  cases event with
  | addAddress a =>
      rw [AddressBook.after]
      split
      · exact hnodup
      · next hnew =>
        have hnew : a ∉ s.discovered := fun hmem => hnew (List.contains_iff_mem.mpr hmem)
        show (s.discovered ++ [a]).Nodup
        rw [← List.concat_eq_append]
        exact List.Nodup.concat hnew hnodup
  | _ => exact hnodup

end Session

end TorrentCore
