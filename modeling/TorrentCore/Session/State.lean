import TorrentCore.Connection.Endpoint
import TorrentCore.PieceHashes
import TorrentCore.Reservation
import TorrentCore.Selection
import TorrentCore.Storage

/-!
# Torrent sessions

A session is everything that belongs to one torrent: what we have of it, who is connected, and what
is under way. Its activities share this state and take turns:

* for each connection, the reader and the writer, and the requester, which picks pieces for the
  peer and asks for their blocks;
* the consumer, which assembles received blocks, verifies pieces and stores them;
* the uploader, which answers requests out of the storage;
* the loop that ends reservations;
* announcements of new pieces on their way to peers.
-/

namespace TorrentCore

inductive InitialHave where
  | nothing
  | restored (bytes : Bytes)
  | check
deriving DecidableEq, Repr

structure TorrentSource where
  infoHash : Identifier
  geometry : Geometry
  hashes : PieceHashes
  storage : Storage
  initial : InitialHave
  options : SessionOptions

/-- Where the requester of a connection stands. -/
inductive Requester where
  | greeting
  | unchoking
  /-- A message waits for a place in the queue; after it the requester goes on. -/
  | sending (parcel : Parcel) (after : Requester)
  | awaitingPieces
  | choosing
  /-- A piece is picked and the peer knows that we want something. -/
  | claiming (index : Nat)
  | awaitingUnchoke
  /-- The piece is reserved up to the deadline; the rest of its blocks is asked for. -/
  | asking (index : Nat) (deadline : Nanoseconds) (rest : Geometry.Cursor)
  | holding (index : Nat) (deadline : Nanoseconds)
  /-- Waiting until a piece is done after the given number of them. -/
  | awaitingPiece (index : Nat) (deadline : Nanoseconds) (piecesDone : Nat)
  | resting
  /-- Waiting until the peer changes or a piece is done after the given numbers of these, or for
  some time. -/
  | idle (changes piecesDone : Nat) (wake : Nanoseconds)
  /-- We have everything and the peer knows that we want nothing. -/
  | parting
  | retired
deriving DecidableEq

/-- A connection of a session. -/
structure Member where
  connection : Connection
  link : Link
  requester : Requester
  /-- The session has done what is to be done after the end of the connection. -/
  closedOut : Bool

/-- Where the uploader stands. -/
inductive UploadPhase where
  | idle
  /-- The block is read from storage, for a connection. -/
  | reading (number : Nat) (request : BlockRequest) (packet : Buffer)
  /-- The packet waits for a place in the queue of the connection. -/
  | sending (number : Nat) (request : BlockRequest) (parcel : Parcel)
deriving DecidableEq

/-- The announcement of a new piece to one connection. -/
structure Announcement where
  number : Nat
  parcel : Parcel
deriving DecidableEq

/-- One torrent. Connections have numbers of their own, because a peer may come back under the same
identifier while its old connection is still closing. -/
structure Session where
  infoHash : Identifier
  ownId : Identifier
  geometry : Geometry
  hashes : PieceHashes
  options : SessionOptions
  connectionOptions : ConnectionOptions
  policy : ReservationPolicy
  storage : Storage
  /-- The pieces that were verified and stored. -/
  owned : Bitfield
  reservations : Reservations
  expiry : ExpiryLoop
  /-- The peer that each piece under way was last asked from. -/
  owners : Table Nat Identifier
  /-- All connections, also those that have ended. -/
  members : Table Nat Member
  /-- The current connection of each peer. -/
  peers : Table Identifier Nat
  discovered : List Address
  /-- Addresses that are being dialed. -/
  connecting : List Address
  hub : Hub
  counters : TorrentCounters
  /-- Pieces of which some blocks have come. -/
  unfinished : Table Nat PieceBuffer
  verifying : Option AssembledPiece
  backlog : List UploadRequest
  upload : UploadPhase
  announcements : List Announcement
  /-- How many times a piece was finished, or a connection closed. -/
  piecesDone : Nat
  /-- How many times it was announced that everything is there. -/
  finishedNotices : Nat
  paused : Bool
  cancelled : Bool

namespace Session

def setOfBools (wanted : List Bool) : Bitfield :=
  (List.range wanted.length).foldl
    (fun f i => if wanted.getD i false then f.insert i else f) (Bitfield.empty wanted.length)

/-- A session without connections. The blocks that are asked for have the chosen length. -/
def make (ownId : Identifier) (t : TorrentSource) (connectionOptions : ConnectionOptions)
    (policy : ReservationPolicy) : Except Error Session := do
  let geometry ← match Geometry.make t.geometry.totalLength t.geometry.pieceLength
      t.options.blockLength with
    | .ok g => pure g
    | .error e => throw (.geometry e)
  let count := geometry.pieceCount.toNat
  let owned ← match t.initial with
    | .restored bytes => Bitfield.ofBytes count bytes
    | _ => pure (Bitfield.empty count)
  match t.options.allowed with
  | some allowed =>
    if allowed.length ≠ count then throw (.bitfieldLength count allowed.length)
  | none => pure ()
  pure {
    infoHash := t.infoHash
    ownId := ownId
    geometry := geometry
    hashes := t.hashes
    options := t.options
    connectionOptions := connectionOptions
    policy := policy
    storage := t.storage
    owned := owned
    reservations := .empty count
    expiry := .awake
    owners := .empty
    members := .empty
    peers := .empty
    discovered := []
    connecting := []
    hub := {
      blocks := .make t.options.blockChannel
      uploads := .make t.options.uploadChannel
      availability := .zero count
      blockPool := .make geometry.blockLength.toNat t.options.maxIdleBuffers
      packetPool := .make (pieceHeaderSize + defaultBlockLength.toNat) t.options.maxIdleBuffers }
    counters := {}
    unfinished := .empty
    verifying := none
    backlog := []
    upload := .idle
    announcements := []
    piecesDone := 0
    finishedNotices := 0
    paused := false
    cancelled := false }

def pieceCount (s : Session) : Nat := s.geometry.pieceCount.toNat

/-- We have every piece that is wanted. -/
def isFinished (s : Session) : Bool :=
  match s.options.allowed with
  | some allowed =>
    (List.range allowed.length).all fun i => !allowed.getD i false || s.owned.contains i
  | none => s.owned.hasAll

def endpoint? (s : Session) (number : Nat) : Option Endpoint :=
  (s.members.get? number).map fun m => ⟨m.connection, s.hub, m.link⟩

def putEndpoint (s : Session) (number : Nat) (e : Endpoint) : Session :=
  { s with
    hub := e.hub
    members := s.members.modify number fun m =>
      { m with connection := e.connection, link := e.link } }

def setRequester (s : Session) (number : Nat) (r : Requester) : Session :=
  { s with members := s.members.modify number fun m => { m with requester := r } }

def disconnect (s : Session) (number : Nat) : Session :=
  { s with members := s.members.modify number fun m =>
      { m with connection := m.connection.disconnect } }

/-- What is offered to whom, and what came of it. -/
inductive Delivery where
  | sent (s : Session)
  | full
  | refused (s : Session)

/-- Offers a parcel to a connection. One that does not exist refuses it. -/
def deliver (s : Session) (now : Nanoseconds) (late : Bool) (number : Nat) (p : Parcel) :
    Delivery :=
  match s.endpoint? number with
  | none => .refused { s with hub := s.hub.unpack p }
  | some e => match e.send now late p with
    | .sent e => .sent (s.putEndpoint number e)
    | .full => .full
    | .refused _ e => .refused (s.putEndpoint number e)

def describe (s : Session) : String :=
  "TorrentSession \x7b info_hash: " ++ s.infoHash.hex ++ ", have: " ++ s.owned.describe
    ++ ", peers: " ++ toString s.peers.size ++ " \x7d"

end Session

end TorrentCore
