import TorrentCore.Proofs.Session.Run
import TorrentCore.Proofs.Swarm.Stage

/-!
# Two swarms that dial each other

Two swarms serve a torrent, and each has dialed the other. What can happen is a run of steps: the
network connects the two sockets, carries what is written on them and tells an end that the other
one has let go; the exchanges of handshakes go on; the sessions of the torrent go on with everything
else they do; and in all that does not concern these the swarms change as they like. There is no
step for what goes wrong: no exchange is late, no attempt is given up, a session is not paused,
removed or told to drop its peers, and a connection at work goes on until the other end of it has
let go.
-/

namespace TorrentCore

inductive Side where
  | left
  | right
deriving DecidableEq, Repr

namespace Side

def other : Side → Side
  | .left => .right
  | .right => .left

@[simp] theorem other_other (side : Side) : side.other.other = side := by cases side <;> rfl

@[simp] theorem other_ne (side : Side) : side.other ≠ side := by cases side <;> exact nofun

@[simp] theorem ne_other (side : Side) : side ≠ side.other := (other_ne side).symm

theorem eq_or_other_eq (side side' : Side) : side = side' ∨ side.other = side' := by
  cases side <;> cases side' <;> simp [other]

theorem forall_iff {P : Side → Prop} : (∀ side, P side) ↔ P .left ∧ P .right :=
  ⟨fun h => ⟨h .left, h .right⟩, fun h side => match side with
    | .left => h.1
    | .right => h.2⟩

theorem exists_iff {P : Side → Prop} : (∃ side, P side) ↔ P .left ∨ P .right :=
  ⟨fun ⟨side, h⟩ => match side with
    | .left => Or.inl h
    | .right => Or.inr h, fun h => h.elim (fun h => ⟨.left, h⟩) fun h => ⟨.right, h⟩⟩

instance {P : Side → Prop} [DecidablePred P] : Decidable (∀ side, P side) :=
  decidable_of_iff' _ forall_iff

instance {P : Side → Prop} [DecidablePred P] : Decidable (∃ side, P side) :=
  decidable_of_iff' _ exists_iff

end Side

/-- What the network does from the near end of a socket to the far end. -/
inductive Passage where
  | carry (count : Nat)
  /-- The near end has let go and everything it had written has come over. -/
  | endOfStream
  /-- The far end has let go, so nothing can be written any more. -/
  | broken
deriving DecidableEq, Repr

def Passage.pass? (near far : Link) : Passage → Option (Link × Link)
  | .carry count =>
    if !far.incoming.closed && count ≤ far.incoming.room then
      some ({ near with outgoing := near.outgoing.drop count },
        { far with incoming := far.incoming.append (near.outgoing.held.take count) })
    else none
  | .endOfStream =>
    if near.outgoing.closed && near.outgoing.count = 0 then
      some (near, { far with incoming := far.incoming.close })
    else none
  | .broken =>
    if far.incoming.closed then some ({ near with outgoing := near.outgoing.close }, far) else none

/-- What one side has decided about a socket. -/
inductive Verdict where
  | taken
  | refused
deriving DecidableEq, Repr

namespace Stage

def verdict? : Stage → Option Verdict
  | .taken _ => some .taken
  | .refused _ => some .refused
  | _ => none

def isLive : Stage → Bool
  | .taken d => !d.hasEnded
  | _ => false

def isClosed : Stage → Bool
  | .taken d => d.hasEnded
  | .refused _ => true
  | _ => false

def isDialing : Stage → Bool
  | .dialing _ => true
  | _ => false

def inTime (now : Nanoseconds) : Stage → Bool
  | .exchanging _ x _ => now < x.deadline.ceilMilliseconds
  | _ => false

end Stage

/-- Which session, and which sockets: each side gives numbers of its own to the socket it has dialed
and to the one that the other side has dialed. -/
structure MutualDial where
  infoHash : Identifier
  session : Side → Nat
  /-- The number that one side gives to the socket dialed by another. -/
  number : Side → Side → Nat

namespace MutualDial

/-- How far the socket dialed by `dialer` has come on one side. -/
def stage (k : MutualDial) (p : Side → Swarm) (side dialer : Side) : Stage :=
  (p side).stage (k.session side) (k.number side dialer)

def listed (k : MutualDial) (p : Side → Swarm) (side : Side) : Option Nat :=
  ((p side).register? (k.session side)).bind fun r => r.peers.get? (p side.other).peerId

def put (p : Side → Swarm) (side : Side) (w : Swarm) : Side → Swarm := fun side' =>
  if side' = side then w else p side'

inductive Move where
  | opened (dialer : Side) (now : Nanoseconds) (capacity : Nat) (address : Address)
  | exchange (side dialer : Side) (now : Nanoseconds)
  | network (side dialer : Side) (passage : Passage)
  | session (side : Side) (now : Nanoseconds) (event : Session.Event)

/-- What may be done to a session: it is given no other connection to the other side, and the ends
of the two sockets are left to the swarm and to the network. -/
def allows (k : MutualDial) (p : Side → Swarm) (side : Side) : Session.Event → Bool
  | .connect number _ _ h _ =>
    number ≠ k.number side .left && number ≠ k.number side .right
      && h.peerId ≠ (p side.other).peerId
  | .farEnd number _ => number ≠ k.number side .left && number ≠ k.number side .right
  | .pause | .dropAllPeers | .shutdown => false
  | _ => true

def goesOn (k : MutualDial) (p p' : Side → Swarm) (side dialer : Side) : Bool :=
  !(k.stage p side dialer).isLive || (k.stage p' side dialer).isLive
    || (k.stage p side.other dialer).isClosed

def opened? (k : MutualDial) (p : Side → Swarm) (dialer : Side) (now : Nanoseconds)
    (capacity : Nat) (address : Address) : Option (Side → Swarm) :=
  if (k.stage p dialer dialer).isDialing
      && (p dialer.other).nextNumber = k.number dialer.other dialer then
    ((p dialer).answerDial? now (k.number dialer dialer) (some (.make capacity))).bind fun w =>
      ((p dialer.other).accept now (.make capacity) address).map fun w' =>
        put (put p dialer w) dialer.other w'
  else none

def exchange? (k : MutualDial) (p : Side → Swarm) (side dialer : Side) (now : Nanoseconds) :
    Option (Side → Swarm) :=
  if (k.stage p side dialer).inTime now then
    ((p side).exchange? now (k.number side dialer)).map (put p side)
  else none

def network? (k : MutualDial) (p : Side → Swarm) (side dialer : Side) (passage : Passage) :
    Option (Side → Swarm) :=
  (k.stage p side dialer).link?.bind fun near =>
    (k.stage p side.other dialer).link?.bind fun far =>
      (passage.pass? near far).map fun (near, far) => fun side' =>
        (p side').modifyLink (k.number side' dialer) fun _ => if side' = side then near else far

def session? (k : MutualDial) (p : Side → Swarm) (side : Side) (now : Nanoseconds)
    (event : Session.Event) : Option (Side → Swarm) :=
  if k.allows p side event then
    ((p side).sessions.get? (k.session side)).bind fun s =>
      (s.happen? now event).bind fun s =>
        let p' := put p side { p side with
          sessions := (p side).sessions.insert (k.session side) s }
        if k.goesOn p p' side .left && k.goesOn p p' side .right then some p' else none
  else none

def move? (k : MutualDial) (p : Side → Swarm) : Move → Option (Side → Swarm)
  | .opened dialer now capacity address => k.opened? p dialer now capacity address
  | .exchange side dialer now => k.exchange? p side dialer now
  | .network side dialer passage => k.network? p side dialer passage
  | .session side now event => k.session? p side now event

/-- What a swarm does with its other torrents and its other attempts to connect. -/
structure Elsewhere (k : MutualDial) (side : Side) (w w' : Swarm) : Prop where
  peerId_eq : w'.peerId = w.peerId
  listed_eq : w'.torrents.get? k.infoHash = w.torrents.get? k.infoHash
  session_eq : w'.sessions.get? (k.session side) = w.sessions.get? (k.session side)
  attempt_eq : ∀ dialer, w'.attempts.get? (k.number side dialer)
    = w.attempts.get? (k.number side dialer)

inductive Run (k : MutualDial) (p : Side → Swarm) : (Side → Swarm) → Prop
  | start : Run k p p
  | moved {q q' : Side → Swarm} {m : Move} (hrun : Run k p q) (hmove : k.move? q m = some q') :
      Run k p q'
  | elsewhere {q : Side → Swarm} {w : Swarm} (hrun : Run k p q) (side : Side)
      (hsame : k.Elsewhere side (q side) w) : Run k p (put q side w)

def run? (k : MutualDial) : List Move → (Side → Swarm) → Option (Side → Swarm)
  | [], p => some p
  | m :: rest, p => (k.move? p m).bind (run? k rest)

theorem run_of_run? {k : MutualDial} {p q q' : Side → Swarm} {moves : List Move} (hrun : Run k p q)
    (h : k.run? moves q = some q') : Run k p q' := by
  induction moves generalizing q with
  | nil =>
      cases h
      exact hrun
  | cons m moves ih =>
      obtain ⟨next, hnext, hrest⟩ := Option.bind_eq_some_iff.mp h
      exact ih (hrun.moved hnext) hrest

/-- Each side serves the torrent and is not paused, has dialed the other, and has no connection to
it. The other has not heard of that yet. -/
structure Starts (k : MutualDial) (p : Side → Swarm) : Prop where
  peerId_ne : (p .left).peerId ≠ (p .right).peerId
  serves : ∀ side, (p side).torrents.get? k.infoHash = some (k.session side)
  session_eq : ∀ side, ∃ r, (p side).register? (k.session side) = some r
    ∧ r.infoHash = k.infoHash ∧ r.ownId = (p side).peerId ∧ r.paused = false
    ∧ r.peers.get? (p side.other).peerId = none ∧ ∀ dialer, r.duty (k.number side dialer) = none
  dials : ∀ side, (p side).attemptStage (k.number side side) = .dialing (some (k.session side))
  waits : ∀ side, (p side).attemptStage (k.number side side.other) = .absent

/-- Both attempts are over, and a socket that one side has refused is closed on both. -/
structure Settled (k : MutualDial) (p : Side → Swarm) : Prop where
  decided : ∀ dialer, (k.stage p dialer dialer).verdict? ≠ none
  closed : ∀ dialer side, (k.stage p side dialer).verdict? = some .refused →
    ∀ side', (k.stage p side' dialer).isClosed = true

/-- One of the two sockets is a connection at work on both sides, and the one that each lists for
the other; the other socket is none on either side. -/
def Connected (k : MutualDial) (p : Side → Swarm) : Prop :=
  ∃ dialer : Side, (∀ side, (k.stage p side dialer).isLive = true
      ∧ k.listed p side = some (k.number side dialer))
    ∧ ∀ side, (k.stage p side dialer.other).isLive = false

/-- Each side has refused the socket that it had dialed. -/
def Crossed (k : MutualDial) (p : Side → Swarm) : Prop :=
  ∀ dialer, (k.stage p dialer dialer).verdict? = some .refused

instance (k : MutualDial) (p : Side → Swarm) : Decidable (k.Settled p) :=
  decidable_of_iff ((∀ dialer, (k.stage p dialer dialer).verdict? ≠ none)
      ∧ ∀ dialer side, (k.stage p side dialer).verdict? = some .refused →
        ∀ side', (k.stage p side' dialer).isClosed = true)
    ⟨fun h => ⟨h.1, h.2⟩, fun h => ⟨h.decided, h.closed⟩⟩

instance (k : MutualDial) (p : Side → Swarm) : Decidable (k.Connected p) :=
  inferInstanceAs (Decidable (∃ dialer : Side, (∀ side, (k.stage p side dialer).isLive = true
    ∧ k.listed p side = some (k.number side dialer))
    ∧ ∀ side, (k.stage p side dialer.other).isLive = false))

instance (k : MutualDial) (p : Side → Swarm) : Decidable (k.Crossed p) :=
  inferInstanceAs (Decidable (∀ dialer, (k.stage p dialer dialer).verdict? = some .refused))

end MutualDial

end TorrentCore
