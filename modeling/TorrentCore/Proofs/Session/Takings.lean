import TorrentCore.Proofs.Session.Run

/-!
# Who counts downloads

The takings of a session are the counters of what was downloaded, verified and rejected. Only
consuming a block and finishing a piece change them. So whatever is said of downloads has to be
checked against these two steps only.
-/

namespace TorrentCore

structure Takings where
  fetchedBytes : UInt64
  verifiedPieces : UInt32
  verifiedBytes : UInt64
  hashFailures : UInt32

namespace Takings

def fetch (t : Takings) (length : Nat) : Takings :=
  { t with fetchedBytes := t.fetchedBytes + UInt64.ofNat length }

def verify (t : Takings) (length : Nat) : Takings :=
  { t with
    verifiedPieces := t.verifiedPieces + 1
    verifiedBytes := t.verifiedBytes + UInt64.ofNat length }

def reject (t : Takings) : Takings := { t with hashFailures := t.hashFailures + 1 }

theorem fetch_zero (t : Takings) : t.fetch 0 = t := congrArg
  (fun bytes => { t with fetchedBytes := bytes }) (UInt64.add_zero t.fetchedBytes)

end Takings

namespace Session

variable {s s' : Session} {now : Nanoseconds} {late : Bool} {event : Event} {number position : Nat}
  {p : Parcel}

def takings (s : Session) : Takings :=
  ⟨s.counters.fetchedBytes, s.counters.verifiedPieces, s.counters.verifiedBytes,
    s.counters.hashFailures⟩

@[simp] theorem takings_setRequester (s : Session) (number : Nat) (r : Requester) :
    (s.setRequester number r).takings = s.takings := rfl

/-! ### Connections -/

theorem takings_connectionStep {step : Endpoint → Option Endpoint}
    (h : s.connectionStep? number step = some s') : s'.takings = s.takings := by
  unfold connectionStep? at h
  split at h
  · cases h
  · obtain ⟨_, _, rfl⟩ := Option.map_eq_some_iff.mp h
    rfl

theorem takings_of_sent (h : s.deliver now late number p = .sent s') : s'.takings = s.takings := by
  unfold deliver at h
  repeat' split at h
  all_goals cases h
  rfl

theorem takings_of_refused (h : s.deliver now late number p = .refused s') :
    s'.takings = s.takings := by
  unfold deliver at h
  repeat' split at h
  all_goals cases h
  all_goals rfl

theorem takings_send {m : Message} (h : s.send? now late number m = some s') :
    s'.takings = s.takings := by
  unfold send? at h
  split at h
  · next hsent =>
    have hsame := takings_of_sent hsent
    cases h
    exact hsame
  · next hrefused =>
    have hsame := takings_of_refused hrefused
    cases h
    exact hsame
  · cases h

/-! ### Requesters -/

@[simp] theorem takings_tell (s : Session) (number : Nat) (c : Connection) (interested : Bool)
    (after : Requester) : (s.tell number c interested after).takings = s.takings := by
  unfold tell
  split <;> rfl

theorem takings_choose (s : Session) (number : Nat) (c : Connection) (coins : List Bool) :
    (s.choose number c coins).takings = s.takings := by
  unfold choose
  repeat' split
  all_goals simp only [takings_tell, takings_setRequester]

theorem takings_claim (s : Session) (now : Nanoseconds) (number : Nat) (c : Connection)
    (index : Nat) : (s.claim now number c index).takings = s.takings := by
  unfold claim
  split
  · rfl
  split
  · rfl
  simp only
  split <;> rfl

theorem takings_request {coins : List Bool} (h : s.request? now number coins = some s') :
    s'.takings = s.takings := by
  unfold request? at h
  split at h
  · cases h
  next m _ =>
  simp only at h
  split at h
  · cases h
  cases hphase : m.requester with
  | sending parcel after =>
      rw [hphase] at h
      simp only at h
      split at h
      · next hsent =>
        have hsame := takings_of_sent hsent
        cases h
        exact hsame
      · next hrefused =>
        have hsame := takings_of_refused hrefused
        cases h
        exact hsame
      · cases h
  | choosing =>
      rw [hphase] at h
      cases h
      exact takings_choose s number m.connection coins
  | claiming index =>
      rw [hphase] at h
      cases h
      exact takings_claim s now number m.connection index
  | _ =>
      -- What is left sends a message or goes on at once.
      rw [hphase] at h
      simp only at h
      repeat' split at h
      all_goals cases h
      all_goals rfl

/-! ### Uploads and announcements -/

theorem takings_serve (s : Session) (r : UploadRequest) : (s.serve r).takings = s.takings := by
  unfold serve
  repeat' split
  all_goals rfl

theorem takings_pickUpload (h : s.pickUpload? = some s') : s'.takings = s.takings := by
  unfold pickUpload? at h
  split at h
  · split at h
    · cases h
    simp only at h
    split at h
    · cases h
      rfl
    · cases h
      exact takings_serve _ _
  · cases h

theorem takings_readUpload (h : s.readUpload? = some s') : s'.takings = s.takings := by
  unfold readUpload? at h
  split at h
  · simp only at h
    split at h <;> cases h <;> rfl
  · cases h

theorem takings_sendUpload (h : s.sendUpload? now late = some s') : s'.takings = s.takings := by
  unfold sendUpload? at h
  split at h
  · split at h
    · next hsent =>
      have hsame := takings_of_sent hsent
      cases h
      exact hsame
    · next hrefused =>
      have hsame := takings_of_refused hrefused
      cases h
      exact hsame
    · cases h
  · cases h

theorem takings_sendAnnouncement (h : s.sendAnnouncement? now late position = some s') :
    s'.takings = s.takings := by
  unfold sendAnnouncement? at h
  split at h
  · cases h
  · simp only at h
    split at h
    · next hsent =>
      have hsame := takings_of_sent hsent
      cases h
      exact hsame
    · next hrefused =>
      have hsame := takings_of_refused hrefused
      cases h
      exact hsame
    · cases h

/-! ### Blocks and pieces -/

theorem takings_noteDiscarded (s : Session) (sender : Identifier) :
    (s.noteDiscarded sender).takings = s.takings := by
  unfold noteDiscarded
  split <;> rfl

theorem takings_announce (s : Session) (index : Nat) :
    (s.announce index).takings = s.takings := by
  unfold announce
  generalize s.peers.values = numbers
  induction numbers generalizing s with
  | nil => rfl
  | cons number numbers ih =>
      rw [List.foldl_cons, ih]
      repeat' split
      all_goals rfl

/-! ### Joining and leaving -/

theorem takings_releaseOwned (s : Session) (peerId : Identifier) :
    (s.releaseOwned peerId).takings = s.takings := by
  unfold releaseOwned
  generalize (s.owners.filter fun _ owner => owner == peerId).keys = indices
  induction indices generalizing s with
  | nil => rfl
  | cons index indices ih => exact ih (s.releasePiece index)

theorem takings_closeOut (h : s.closeOut? number = some s') : s'.takings = s.takings := by
  unfold closeOut? at h
  split at h
  · cases h
  next m _ =>
  split at h
  · cases h
  cases h
  refine (takings_releaseOwned _ _).trans ?_
  show (s.dropRequester m.requester).takings = s.takings
  unfold dropRequester
  split <;> rfl

theorem takings_expire (h : s.expire? now = some s') : s'.takings = s.takings := by
  unfold expire? at h
  split at h
  · cases h
  · obtain ⟨_, _, rfl⟩ := Option.map_eq_some_iff.mp h
    rfl

theorem takings_addPeer {link : Link} {address : Address} {handshake : Handshake}
    {buffer : ReadBuffer} (h : s.addPeer now number link address handshake buffer = .ok s') :
    s'.takings = s.takings := by
  unfold addPeer at h
  repeat' split at h
  all_goals cases h
  rfl

theorem takings_dropAllPeers (s : Session) : s.dropAllPeers.takings = s.takings := by
  show (s.peers.values.foldl disconnect s).takings = s.takings
  generalize s.peers.values = numbers
  induction numbers generalizing s with
  | nil => rfl
  | cons number numbers ih => exact ih (s.disconnect number)

/-! ### Events -/

def Event.isDownload : Event → Bool
  | .own .consume | .own .finishPiece => true
  | _ => false

theorem takings_happen (hother : event.isDownload = false) (h : s.happen? now event = some s') :
    s'.takings = s.takings := by
  cases event with
  | own action =>
      cases action with
      | stop number | receive number | transmit number => exact takings_connectionStep h
      | closeOut number => exact takings_closeOut h
      | request number coins => exact takings_request h
      | announce position late => exact takings_sendAnnouncement h
      | pickUpload => exact takings_pickUpload h
      | readUpload => exact takings_readUpload h
      | sendUpload late => exact takings_sendUpload h
      | expire => exact takings_expire h
      | consume | finishPiece => cases hother
  | connect number link address handshake buffer =>
      rw [happen?] at h
      split at h
      · cases h
      cases hadd : s.addPeer now number link address handshake buffer with
      | ok added =>
          rw [hadd] at h
          cases h
          exact takings_addPeer hadd
      | error e =>
          rw [hadd] at h
          cases h
  | send number m late => exact takings_send h
  | dropAllPeers =>
      cases h
      exact takings_dropAllPeers s
  | addAddress a =>
      cases h
      unfold addAddress
      split <;> rfl
  | farEnd _ _ | disconnect _ | shutdown | pause | resume | removeFinishedPeers | startConnecting _
  | doneConnecting _ =>
      cases h
      rfl

end Session

end TorrentCore
