import TorrentCore.Proofs.Connection.Record
import TorrentCore.Proofs.Session.Run
import TorrentCore.Proofs.Table

/-!
# What the activities leave alone

Much of what a session does concerns neither its pieces nor who has told of which pieces. The
outline of a session is just these two: its holdings, that is what is stored, owned, assembled and
verified, and its roll, that is which connections there are, what their records say, and the counts.
Every activity that leaves the outline alone does so by a lemma here. So a property of the holdings
or of the roll has to be checked only against the few steps that `Turn` has besides.
-/

namespace TorrentCore

/-- The part of a session that says which pieces there are, and how far the others have come. -/
structure Holdings where
  geometry : Geometry
  hashes : PieceHashes
  options : SessionOptions
  storage : Storage
  owned : Bitfield
  unfinished : Table Nat PieceBuffer
  verifying : Option AssembledPiece

/-- The part of a connection that is counted. -/
structure Standing where
  hasEnded : Bool
  pieces : Bitfield

/-- The part of a session that says who has which pieces. -/
structure Roll where
  availability : Availability
  numbers : List Nat
  standing : Nat → Option Standing

def Roll.enter (r : Roll) (availability : Availability) (numbers : List Nat) (number : Nat)
    (st : Standing) : Roll :=
  ⟨availability, numbers, fun number' => if number' = number then some st else r.standing number'⟩

structure Outline where
  holdings : Holdings
  roll : Roll

namespace Session

open Connection

def holdings (s : Session) : Holdings :=
  ⟨s.geometry, s.hashes, s.options, s.storage, s.owned, s.unfinished, s.verifying⟩

def standing (c : Connection) : Standing := ⟨c.hasEnded, c.pieces⟩

def roll (s : Session) : Roll :=
  ⟨s.hub.availability, s.members.keys, fun number =>
    (s.members.get? number).map fun m => standing m.connection⟩

def outline (s : Session) : Outline := ⟨s.holdings, s.roll⟩

theorem holdings_of_outline {s : Session} {h : Holdings} {r : Roll}
    (houtline : s.outline = ⟨h, r⟩) :
    s.holdings = h := congrArg Outline.holdings houtline

theorem roll_of_outline {s : Session} {h : Holdings} {r : Roll} (houtline : s.outline = ⟨h, r⟩) :
    s.roll = r := congrArg Outline.roll houtline

theorem geometry_of_outline {s : Session} {h : Holdings} {r : Roll}
    (houtline : s.outline = ⟨h, r⟩) : s.geometry = h.geometry :=
  congrArg (fun o => o.holdings.geometry) houtline

theorem standing_eq {c c' : Connection} (h : SameRecord c c') : standing c' = standing c := by
  rw [standing, standing, h.hasEnded_eq, h.pieces_eq]

/-! ### Connections -/

theorem roll_modify (s : Session) (number : Nat) {f : Member → Member}
    (h : ∀ m, SameRecord m.connection (f m).connection) :
    roll { s with members := s.members.modify number f } = s.roll := by
  simp only [roll, Table.keys_modify, Table.get?_modify]
  congr 1
  funext number'
  split
  · next heq =>
    rw [heq, Option.map_map]
    congr 1
    funext m
    exact standing_eq (h m)
  · rfl

theorem outline_modify (s : Session) (number : Nat) {f : Member → Member}
    (h : ∀ m, SameRecord m.connection (f m).connection) :
    outline { s with members := s.members.modify number f } = s.outline := by
  rw [outline, roll_modify s number h]
  rfl

@[simp] theorem outline_setRequester (s : Session) (number : Nat) (r : Requester) :
    (s.setRequester number r).outline = s.outline :=
  outline_modify s number fun m => .refl m.connection

@[simp] theorem outline_disconnect (s : Session) (number : Nat) :
    (s.disconnect number).outline = s.outline :=
  outline_modify s number fun _ => ⟨rfl, rfl⟩

theorem roll_putEndpoint {s : Session} {number : Nat} {e e' : Endpoint}
    (he : s.endpoint? number = some e) :
    (s.putEndpoint number e').roll
      = s.roll.enter e'.hub.availability s.roll.numbers number (standing e'.connection) := by
  obtain ⟨m, hm, rfl⟩ := Option.map_eq_some_iff.mp he
  simp only [roll, Roll.enter, putEndpoint, Table.keys_modify, Table.get?_modify, hm,
    Option.map_some]
  congr 1
  funext number'
  split <;> rfl

theorem standing_of_endpoint? {s : Session} {number : Nat} {e : Endpoint}
    (he : s.endpoint? number = some e) :
    s.roll.standing number = some (standing e.connection) ∧ e.hub = s.hub := by
  obtain ⟨m, hm, rfl⟩ := Option.map_eq_some_iff.mp he
  refine ⟨?_, rfl⟩
  show (s.members.get? number).map (fun m => standing m.connection) = _
  rw [hm]
  rfl

theorem outline_putEndpoint {s : Session} {number : Nat} {e e' : Endpoint}
    (he : s.endpoint? number = some e) (hsame : SameRecord e.connection e'.connection)
    (hcounts : e'.hub.availability = e.hub.availability) :
    (s.putEndpoint number e').outline = s.outline := by
  obtain ⟨hstanding, hhub⟩ := standing_of_endpoint? he
  have hroll : (s.putEndpoint number e').roll = s.roll := by
    rw [roll_putEndpoint he, hcounts, hhub, standing_eq hsame]
    show Roll.mk _ _ _ = Roll.mk _ _ s.roll.standing
    congr 1
    funext number'
    split
    · next heq => rw [heq, hstanding]
    · rfl
  rw [outline, hroll]
  rfl

theorem outline_of_sent {s s' : Session} {now : Nanoseconds} {late : Bool} {number : Nat}
    {p : Parcel}
    (h : s.deliver now late number p = .sent s') : s'.outline = s.outline := by
  unfold deliver at h
  split at h
  · cases h
  next e he =>
  split at h
  · next e' hsent =>
    cases h
    obtain ⟨hsame, hcounts⟩ := Endpoint.sameRecord_send_sent hsent
    exact outline_putEndpoint he hsame hcounts
  · cases h
  · cases h

theorem outline_of_refused {s s' : Session} {now : Nanoseconds} {late : Bool} {number : Nat}
    {p : Parcel}
    (h : s.deliver now late number p = .refused s') : s'.outline = s.outline := by
  unfold deliver at h
  split at h
  · cases h
    rfl
  next e he =>
  split at h
  · cases h
  · cases h
  · next cause e' hrefused =>
    cases h
    obtain ⟨hsame, hcounts⟩ := Endpoint.sameRecord_send_refused hrefused
    exact outline_putEndpoint he hsame hcounts

theorem outline_send {s s' : Session} {now : Nanoseconds} {late : Bool} {number : Nat} {m : Message}
    (h : s.send? now late number m = some s') : s'.outline = s.outline := by
  unfold send? at h
  split at h
  · next hsent =>
    have hsame := outline_of_sent hsent
    cases h
    exact hsame
  · next hrefused =>
    have hsame := outline_of_refused hrefused
    cases h
    exact hsame
  · cases h

/-! ### Requesters -/

@[simp] theorem outline_ask (s : Session) (number : Nat) (m : Message) (after : Requester) :
    (s.ask number m after).outline = s.outline :=
  outline_setRequester { s with hub := (s.hub.pack m).2 } number _

@[simp] theorem outline_tell (s : Session) (number : Nat) (c : Connection) (interested : Bool)
    (after : Requester) : (s.tell number c interested after).outline = s.outline := by
  unfold tell
  split
  · exact outline_setRequester s number after
  · exact outline_ask s number _ after

@[simp] theorem outline_choose (s : Session) (number : Nat) (c : Connection) (coins : List Bool) :
    (s.choose number c coins).outline = s.outline := by
  unfold choose
  split
  · exact outline_tell s number c false .parting
  · split
    · exact outline_setRequester s number .retired
    · split
      · exact outline_tell s number c true _
      · exact outline_tell s number c _ .resting

@[simp] theorem outline_claim (s : Session) (now : Nanoseconds) (number : Nat) (c : Connection)
    (index : Nat) : (s.claim now number c index).outline = s.outline := by
  unfold claim
  split
  · exact outline_setRequester s number .awaitingUnchoke
  · split
    · exact outline_setRequester s number .choosing
    · simp only
      split
      · exact outline_setRequester s number .choosing
      · exact (outline_setRequester _ number _).trans rfl

theorem outline_request {s s' : Session} {now : Nanoseconds} {number : Nat} {coins : List Bool}
    (h : s.request? now number coins = some s') : s'.outline = s.outline := by
  unfold request? at h
  split at h
  · cases h
  next m _ =>
  simp only at h
  split at h
  · cases h
  cases hphase : m.requester with
  | sending parcel after =>
      rw [hphase] at h
      simp only at h
      split at h
      · next hsent =>
        cases h
        rw [outline_setRequester]
        exact outline_of_sent hsent
      · next hrefused =>
        cases h
        rw [outline_disconnect, outline_setRequester]
        exact outline_of_refused hrefused
      · cases h
  | choosing =>
      rw [hphase] at h
      cases h
      exact outline_choose s number m.connection coins
  | claiming index =>
      rw [hphase] at h
      cases h
      exact outline_claim s now number m.connection index
  | _ =>
      -- What is left says at once what becomes of the requester.
      rw [hphase] at h
      simp only at h
      repeat' split at h
      all_goals cases h
      all_goals simp only [outline_setRequester, outline_ask, outline_disconnect]

/-! ### Uploads -/

@[simp] theorem outline_serve (s : Session) (r : UploadRequest) :
    (s.serve r).outline = s.outline := by
  unfold serve
  repeat' split
  all_goals first
    | rfl
    | exact outline_disconnect s _

theorem outline_pickUpload {s s' : Session} (h : s.pickUpload? = some s') :
    s'.outline = s.outline := by
  unfold pickUpload? at h
  split at h
  · split at h
    · cases h
    · simp only at h
      split at h
      · cases h
        rfl
      · cases h
        exact outline_serve _ _
  · cases h

theorem outline_readUpload {s s' : Session} (h : s.readUpload? = some s') :
    s'.outline = s.outline := by
  unfold readUpload? at h
  split at h
  · simp only at h
    split at h <;> cases h <;> rfl
  · cases h

@[simp] theorem outline_noteUploaded (s : Session) (number length : Nat) :
    (s.noteUploaded number length).outline = s.outline := by
  refine (outline_modify { s with counters := s.counters.blockUploaded length } number ?_).trans rfl
  exact fun _ => ⟨rfl, rfl⟩

theorem outline_sendUpload {s s' : Session} {now : Nanoseconds} {late : Bool}
    (h : s.sendUpload? now late = some s') : s'.outline = s.outline := by
  unfold sendUpload? at h
  split at h
  · split at h
    · next hsent =>
      have hsame := outline_of_sent hsent
      cases h
      exact (outline_noteUploaded _ _ _).trans hsame
    · next hrefused =>
      have hsame := outline_of_refused hrefused
      cases h
      exact hsame
    · cases h
  · cases h

theorem outline_sendAnnouncement {s s' : Session} {now : Nanoseconds} {late : Bool} {position : Nat}
    (h : s.sendAnnouncement? now late position = some s') : s'.outline = s.outline := by
  unfold sendAnnouncement? at h
  split at h
  · cases h
  · simp only at h
    split at h
    · next hsent =>
      have hsame := outline_of_sent hsent
      cases h
      exact hsame
    · next hrefused =>
      have hsame := outline_of_refused hrefused
      cases h
      exact hsame
    · cases h

/-! ### Reservations and membership -/

theorem outline_expire {s s' : Session} {now : Nanoseconds} (h : s.expire? now = some s') :
    s'.outline = s.outline := by
  unfold expire? at h
  split at h
  · cases h
  · obtain ⟨_, _, rfl⟩ := Option.map_eq_some_iff.mp h
    rfl

@[simp] theorem outline_releaseOwned (s : Session) (peerId : Identifier) :
    (s.releaseOwned peerId).outline = s.outline := by
  unfold releaseOwned
  generalize (s.owners.filter fun _ owner => owner == peerId).keys = indices
  induction indices generalizing s with
  | nil => rfl
  | cons index indices ih => exact ih (s.releasePiece index)

@[simp] theorem outline_dropRequester (s : Session) (r : Requester) :
    (s.dropRequester r).outline = s.outline := by
  unfold dropRequester
  split <;> rfl

theorem outline_closeOut {s s' : Session} {number : Nat} (h : s.closeOut? number = some s') :
    s'.outline = s.outline := by
  unfold closeOut? at h
  split at h
  · cases h
  next m _ =>
  split at h
  · cases h
  cases h
  refine (outline_releaseOwned _ _).trans ?_
  refine Eq.trans ?_ (outline_dropRequester s m.requester)
  exact outline_modify (s.dropRequester m.requester) number fun _ => ⟨rfl, rfl⟩

@[simp] theorem outline_dropAllPeers (s : Session) : s.dropAllPeers.outline = s.outline := by
  show (s.peers.values.foldl disconnect s).outline = s.outline
  generalize s.peers.values = numbers
  induction numbers generalizing s with
  | nil => rfl
  | cons number numbers ih => exact (ih (s.disconnect number)).trans (outline_disconnect s number)

@[simp] theorem outline_addAddress (s : Session) (a : Address) :
    (s.addAddress a).2.outline = s.outline := by
  unfold addAddress
  split <;> rfl

end Session

end TorrentCore
