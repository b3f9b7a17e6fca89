import TorrentCore.Report
import TorrentCore.Simulation.Schedule

/-!
# A swarm and its surroundings

Far ends connect to a swarm, write to it and read from it, on a virtual clock. Torrents and far
ends have names. A step acts at the current time; then everything runs until it waits and the clock
moves on, by a millisecond at least.
-/

namespace TorrentCore

/-- The peer's end of an incoming connection. -/
structure FarEnd where
  /-- The number of the connection, unless it was not accepted. -/
  number : Option Nat
  received : Nat

structure NamedSession where
  number : Nat
  finishedAtStart : Bool

/-- A swarm, the clock, and everything that has a name. -/
structure Scene where
  now : Nanoseconds
  swarm : Swarm
  turns : Turns SwarmTask Swarm.Action
  /-- The info hash that goes with a name: that of the torrent last added under it, or else of the
  first one that could not be added. -/
  infoHashes : Table String Identifier
  sessions : Table String NamedSession
  /-- The storage that goes with a name whose torrent was never added. -/
  unused : Table String Storage
  farEnds : Table String FarEnd
  listeners : List String
  addresses : Table String Address

namespace Swarm

def link? (w : Swarm) (number : Nat) : Option Link :=
  match w.sessions.values.findSome? fun s => s.members.get? number with
  | some m => some m.link
  | none => (w.attempts.get? number).map Attempt.link

def modifyLink (w : Swarm) (number : Nat) (f : Link → Link) : Swarm :=
  { w.modifyAttempt number fun a => { a with link := f a.link } with
    sessions := ⟨w.sessions.entries.map fun (n, s) => (n, { s with
      members := s.members.modify number fun m => { m with link := f m.link } })⟩ }

end Swarm

namespace Scene

def make (peerId : Identifier) (options : SwarmOptions) : Scene where
  now := 0
  swarm := .make peerId options 0
  turns := .start
  infoHashes := .empty
  sessions := .empty
  unused := .empty
  farEnds := .empty
  listeners := []
  addresses := .empty

def linkCapacity : Nat := 4194304

/-- The digests of the pieces of a byte string. Those of some pieces are made wrong. -/
def digests (data : Bytes) (pieceLength : Nat) (wrong : List Nat) : Bytes :=
  (List.range ((data.length + pieceLength - 1) / pieceLength)).flatMap fun i =>
    let digest := Sha1.digest (data.slice (i * pieceLength) pieceLength)
    if wrong.contains i then digest.modify 0 (~~~ ·) else digest

/-! ## Torrents -/

def session? (c : Scene) (name : String) : Option Session :=
  (c.sessions.get? name).bind fun n => c.swarm.sessions.get? n.number

def modifySession (c : Scene) (name : String) (f : Session → Session) : Scene :=
  match c.sessions.get? name with
  | some n => { c with swarm := c.swarm.modifySession n.number f }
  | none => c

/-- A torrent could not be added. The name goes with it only if no torrent had the name before. -/
def noteUnused (c : Scene) (name : String) (infoHash : Option Identifier) (storage : Storage) :
    Scene :=
  if c.sessions.contains name || c.unused.contains name then c
  else { c with
    unused := c.unused.insert name storage
    infoHashes := match infoHash with
      | some id => c.infoHashes.insert name id
      | none => c.infoHashes }

def addTorrent (c : Scene) (name : String) (t : TorrentSource) : Value × Scene :=
  match c.swarm.beginAdd t with
  | .error e => (e.report, c.noteUnused name t.infoHash t.storage)
  | .ok (number, w) => match w.finishAdd number with
    | (.error e, w) => (e.report, { c with swarm := w }.noteUnused name t.infoHash t.storage)
    | (.ok (), w) => match w.sessions.get? number with
      | none => (.absent, { c with swarm := w })
      | some s => (.record [("info_hash", s.infoHash.hex), ("peer_id", s.ownId.hex),
            ("pieces", s.pieceCount), ("block_length", s.geometry.blockLength.toNat)],
          { c with
            swarm := w
            infoHashes := c.infoHashes.insert name t.infoHash
            sessions := c.sessions.insert name ⟨number, s.isFinished⟩
            unused := c.unused.erase name })

def lookUp (c : Scene) (infoHash : Identifier) : Value :=
  .record [("found", .ofOption (fun s : Session => s.infoHash.hex) (c.swarm.session? infoHash)),
    ("served", c.swarm.isServed infoHash), ("torrents", c.swarm.torrents.size)]

def removeTorrent (c : Scene) (infoHash : Identifier) : Value × Scene :=
  match c.swarm.removeTorrent infoHash with
  | .error e => (e.report, c)
  | .ok (number, w) =>
    (.ofOption (fun s : Session => .record [("cancelled", s.cancelled), ("live", s.peers.size)])
      (w.sessions.get? number), { c with swarm := w })

def addAddress (c : Scene) (infoHash : Identifier) (a : Address) : Value × Scene :=
  match c.swarm.addAddress infoHash a with
  | .error e => (e.report, c)
  | .ok (isNew, w) => (isNew, { c with swarm := w })

def check (c : Scene) (name : String) : Value × Scene :=
  match c.session? name with
  | none => (.absent, c)
  | some s =>
    let (good, s) := s.checkExisting
    let shown : Value := match good with
      | .ok n => n
      | .error e => reportFailure "Check" e.message
    (shown, c.modifySession name fun _ => s)

/-! ## Far ends -/

def close (c : Scene) (name : String) : Scene :=
  let swarm := match (c.farEnds.get? name).bind FarEnd.number with
    | some number => c.swarm.modifyLink number Link.hangUp
    | none => c.swarm
  { c with swarm := swarm, farEnds := c.farEnds.erase name }

def write (c : Scene) (name : String) (bytes : Bytes) : Bool × Scene :=
  match (c.farEnds.get? name).bind FarEnd.number with
  | none => (false, c)
  | some number => match c.swarm.link? number with
    | none => (false, c)
    | some l => match l.incoming.write? bytes with
      | none => (false, c)
      | some (_, incoming) =>
        (true, { c with swarm := c.swarm.modifyLink number fun l => { l with incoming := incoming } })

/-- A far end connects and writes. A far end of the same name closes its link. -/
def connect (c : Scene) (name : String) (address : Address) (bytes : Bytes) : Bool × Scene :=
  let c := c.close name
  match c.swarm.accept c.now (Link.make linkCapacity) address with
  | none => (false, { c with farEnds := c.farEnds.insert name ⟨none, 0⟩ })
  | some w =>
    let c := { c with swarm := w, farEnds := c.farEnds.insert name ⟨some c.swarm.nextNumber, 0⟩ }
    (true, (c.write name bytes).2)

/-- A far end reads what has come. After the end of the stream only what belongs to the handshake
is shown, because how much of the rest is still written is up to chance. -/
def readFarEnd (w : Swarm) (f : FarEnd) : Value × FarEnd × Swarm :=
  let shown (bytes : Bytes) (atEnd : Bool) : Value :=
    .record [("got", bytes.report), ("eof", atEnd)]
  match f.number with
  | none => (shown [] true, f, w)
  | some number => match w.link? number with
    | none => (shown [] true, f, w)
    | some l =>
      let bytes := l.outgoing.held
      (shown (if l.outgoing.closed then bytes.take (handshakeLength - f.received) else bytes)
          l.outgoing.closed,
        { f with received := f.received + bytes.length },
        w.modifyLink number fun l => { l with outgoing := l.outgoing.drop bytes.length })

def readFarEnds (c : Scene) : List (String × Value) × Scene :=
  c.farEnds.entries.foldl (fun (shown, c) (name, f) =>
    let (v, f, w) := readFarEnd c.swarm f
    (shown ++ [(name, v)], { c with swarm := w, farEnds := c.farEnds.insert name f })) ([], c)

/-! ## Time and reports -/

/-- Everything runs until it waits, then time passes: a millisecond, and `span` beside it. -/
def pass (c : Scene) (span : Nanoseconds) : Scene :=
  let span := span + 1000000
  let r := RunningSwarm.advance (c.now + span) (span.toMilliseconds + 1) c.now
    (RunningSwarm.settle ⟨c.swarm, c.turns⟩ c.now)
  { c with now := c.now + span, swarm := r.swarm, turns := r.turns }

def reportMember (m : Member) : Value :=
  let c := m.connection
  .record [("addr", c.address.text), ("am_choked", c.amChoked), ("peer_choked", c.peerChoked),
    ("am_interested", c.amInterested), ("peer_interested", c.peerInterested),
    ("bitfield", c.pieces.bytes.report), ("counters", c.counters.report)]

def reportSession (s : Session) (finishedAtStart : Bool) : Value :=
  let peers := s.peers.entries.filterMap fun (peerId, number) =>
    (s.members.get? number).map fun m => (peerId.hex, reportMember m)
  .record [("have", s.owned.bytes.report), ("availability", s.hub.availability.report),
    ("reserved", s.reservations.reserved.bytes.report), ("finished", s.isFinished),
    ("paused", s.paused), ("cancelled", s.cancelled),
    ("waiter_done", finishedAtStart || 0 < s.finishedNotices),
    ("stats", .record (s.counters.report s.peers.size)), ("peers", .record peers)]

def observe (c : Scene) : List (String × Value) × Scene :=
  let (farEnds, next) := c.readFarEnds
  let torrents := c.sessions.entries.filterMap fun (name, n) =>
    (c.swarm.sessions.get? n.number).map fun s => (name, reportSession s n.finishedAtStart)
  ([("at_ms", c.now.toMilliseconds), ("half_open_free", c.swarm.freeSlots),
    ("torrents", .record torrents), ("conns", .record farEnds)], next)

def storages (c : Scene) : Value :=
  let added := c.sessions.entries.filterMap fun (name, n) =>
    (c.swarm.sessions.get? n.number).map fun s => (name, s.storage.bytes.report)
  .record (added ++ c.unused.entries.map fun (name, s) => (name, s.bytes.report))

end Scene

end TorrentCore
