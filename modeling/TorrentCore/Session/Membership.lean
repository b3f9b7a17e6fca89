import TorrentCore.Session.Consumer

/-!
# Connections of a session

The first connection of a peer is taken and stays; later ones are refused while it is there. When a
connection has ended, its entry goes away unless a newer connection has taken it, and the pieces
last asked from its peer may be asked from others.
-/

namespace TorrentCore

namespace Session

/-- Promotes a connection whose handshakes were exchanged to one that is at work. -/
def addPeer (s : Session) (now : Nanoseconds) (number : Nat) (link : Link) (address : Address)
    (h : Handshake) (buffer : ReadBuffer) : Except Error Session :=
  if h.peerId = s.ownId then .error .connectingToOurselves
  else if s.peers.contains h.peerId then .error (.duplicatePeer h.peerId)
  else
    let c := (Connection.make address h.peerId s.pieceCount s.connectionOptions buffer now).start now
    .ok { s with
      members := s.members.insert number
        { connection := { c with cancelled := s.cancelled }
          link := link
          requester := .greeting
          closedOut := false }
      peers := s.peers.insert h.peerId number }

/-- The pieces that were last asked from a peer may be asked from others. -/
def releaseOwned (s : Session) (peerId : Identifier) : Session :=
  let owned := (s.owners.filter fun _ owner => owner == peerId).keys
  owned.foldl releasePiece s

/-- Gives back the packet that a requester was about to send. -/
def dropRequester (s : Session) : Requester → Session
  | .sending parcel _ => { s with hub := s.hub.unpack parcel }
  | _ => s

/-- What is to be done after the end of a connection. -/
def closeOut? (s : Session) (number : Nat) : Option Session :=
  match s.members.get? number with
  | none => none
  | some m =>
    if m.closedOut || !m.connection.hasEnded then none
    else
      let peerId := m.connection.peerId
      let s := s.dropRequester m.requester
      let s := { s with
        members := s.members.modify number fun m =>
          { m with requester := .retired, closedOut := true }
        peers := if s.peers.get? peerId = some number then s.peers.erase peerId else s.peers }
      let s := s.releaseOwned peerId
      some { s with piecesDone := s.piecesDone + 1 }

/-- Tells the connections of all peers to end, and forgets the peers. -/
def dropAllPeers (s : Session) : Session :=
  { s.peers.values.foldl disconnect s with peers := .empty }

/-- Forgets peers whose connection was closed out. -/
def removeFinishedPeers (s : Session) : Session :=
  { s with peers := s.peers.filter fun _ number =>
      match s.members.get? number with
      | some m => !m.closedOut
      | none => false }

/-- Stops everything that the session does. Connections end by themselves after that. What the
session held in buffers is given back, but a piece that is being verified may still be stored. -/
def shutdown (s : Session) : Session :=
  let (blocks, blockChannel) := s.hub.blocks.shut
  let packets := s.announcements.map (·.parcel.packet) ++ match s.upload with
    | .reading _ _ packet => [packet]
    | .sending _ _ parcel => [parcel.packet]
    | .idle => []
  { s with
    cancelled := true
    peers := .empty
    members := ⟨s.members.entries.map fun (number, m) =>
      (number, { m with connection := m.connection.disconnect })⟩
    hub := { s.hub with
      blocks := blockChannel
      uploads := s.hub.uploads.shut.2
      blockPool := s.hub.blockPool.giveBackAll
        (blocks.map Block.data ++ s.unfinished.values.flatMap fun b => b.assembler.held)
      packetPool := s.hub.packetPool.giveBackAll packets }
    unfinished := .empty
    backlog := []
    upload := .idle
    announcements := [] }

def addAddress (s : Session) (a : Address) : Bool × Session :=
  if s.discovered.contains a then (false, s)
  else (true, { s with discovered := s.discovered ++ [a] })

/-- The addresses that may be dialed: those we are neither connected nor connecting to, as many as
there is room for below the bound. -/
def addressesToDial (s : Session) (bound : Nat) : List Address :=
  let connected := s.peers.values.filterMap fun number =>
    (s.members.get? number).map fun m => m.connection.address
  (s.discovered.filter fun a => !connected.contains a && !s.connecting.contains a).take
    (bound - (s.peers.size + s.connecting.length))

def startConnecting (s : Session) (a : Address) : Session :=
  { s with connecting := s.connecting ++ [a] }

def doneConnecting (s : Session) (a : Address) : Session :=
  { s with connecting := s.connecting.filter (· != a) }

end Session

end TorrentCore
