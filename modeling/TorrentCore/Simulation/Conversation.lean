import TorrentCore.Connection.Endpoint
import TorrentCore.Report
import TorrentCore.Simulation.Turns

/-!
# One connection on a virtual clock

A connection talks to a far end that is moved by hand. Time stands still while anything can go on;
it moves only when asked to, straight to the next timer. The far end takes nothing by itself. The
connection, the writing far end and those who wait for something in the background take turns, so
what lasts no longer than one turn of the connection is seen by nobody.
-/

namespace TorrentCore

/-- What a task in the background waits for. -/
inductive Awaited where
  | bitfield
  | unchoke
  | changed (since : Nat)
deriving DecidableEq, Repr

def Awaited.report : Awaited → String
  | .bitfield => "bitfield"
  | .unchoke => "unchoke"
  | .changed _ => "changed"

inductive ConversationTask where
  | farEnd
  | connection
  | watchers
deriving DecidableEq, Repr

/-- A connection and its far end. -/
structure Conversation where
  now : Nanoseconds
  endpoint : Endpoint
  outbox : Bytes
  /-- The far end stops writing after that, and writes nothing more. -/
  leaving : Bool
  /-- What is waited for in the background, by those who looked first. -/
  awaited : List Awaited
  /-- How many changes there were when those who wait last looked. -/
  seen : Nat
  arrived : List Awaited
  turns : Turns ConversationTask ConversationTask

namespace Conversation

/-- A connection that is not yet at work. Messages may be as long as its options say, and links
hold `linkCapacity` bytes in each direction. -/
def make (address : Address) (peerId : Identifier) (options : ConnectionOptions) (hub : Hub)
    (linkCapacity : Nat) : Conversation where
  now := 0
  endpoint :=
    { connection := .make address peerId hub.availability.counts.length options
        (.forMessages options.maxMessage) 0
      hub := hub
      link := .make linkCapacity }
  outbox := []
  leaving := false
  awaited := []
  seen := 0
  arrived := []
  turns := .start

def post (v : Conversation) (bytes : Bytes) : Conversation :=
  if v.leaving then v else { v with outbox := v.outbox ++ bytes }

def push? (v : Conversation) : Option Conversation :=
  let link := v.endpoint.link
  let setIncoming (incoming : Pipe) : Endpoint :=
    { v.endpoint with link := { link with incoming := incoming } }
  if v.outbox.isEmpty then
    if v.leaving && !link.incoming.closed then
      some { v with endpoint := setIncoming link.incoming.close }
    else none
  else match link.incoming.write? v.outbox with
    | none => some { v with outbox := [] }
    | some (left, incoming) =>
      if link.incoming.room = 0 then none
      else some { v with outbox := left, endpoint := setIncoming incoming }

/-- Those who wait look whether it has come, if there was a change since they last looked. -/
def look? (v : Conversation) : Option Conversation :=
  let c := v.endpoint.connection
  if v.awaited.isEmpty || c.changes ≤ v.seen then none
  else
    let has (a : Awaited) : Bool := match a with
      | .bitfield => c.knowsPieces
      | .unchoke => !c.amChoked
      | .changed since => since < c.changes
    some { v with
      awaited := v.awaited.filter fun a => !has a
      arrived := v.arrived ++ v.awaited.filter has
      seen := c.changes }

def act? (v : Conversation) : Option Conversation :=
  let e := v.endpoint
  (e.stop?.or ((e.receive? v.now).or (e.transmit? v.now))).map fun e => { v with endpoint := e }

def tasks : TaskSystem Conversation ConversationTask ConversationTask where
  activities _ := [.farEnd, .connection, .watchers]
  outside _ := []
  task a := a
  lasting _ := false
  act? v
    | .farEnd => v.push?
    | .connection => v.act?
    | .watchers => v.look?

/-- How many bytes packets hold, each counted as one byte more. -/
def weight (packets : List Buffer) : Nat := packets.foldr (fun p n => p.bytes.length + 1 + n) 0

/-- Bounds what happens until everything waits. Every byte is written, read and used at most once,
and a packet or a message takes a few steps more. Keep-alives may fill the link. -/
def fuel (v : Conversation) : Nat :=
  let e := v.endpoint
  16 * (v.outbox.length + e.link.incoming.count + e.connection.buffer.pending.length
    + weight (Endpoint.heldPackets e.connection) + e.link.outgoing.room + 8)

def settle (v : Conversation) : Conversation :=
  let (v, turns) := tasks.run v.fuel v v.turns
  { v with turns := turns }

def collect (v : Conversation) :
    List Awaited × Conversation := (v.arrived, { v with arrived := [] })

/-- Waits for something in the background. It may be there already. -/
def await (v : Conversation) (a : Awaited) : Conversation :=
  let c := v.endpoint.connection
  let here := match a with
    | .bitfield => c.knowsPieces
    | .unchoke => !c.amChoked
    | .changed _ => false
  if here then { v with arrived := v.arrived ++ [a] } else { v with awaited := v.awaited ++ [a] }

def start (v : Conversation) : Conversation :=
  { v with endpoint := { v.endpoint with connection := v.endpoint.connection.start v.now } }

def disconnect (v : Conversation) : Conversation :=
  { v with endpoint := { v.endpoint with connection := v.endpoint.connection.disconnect } }

/-- Sends a parcel, waiting as long as anything goes on. A parcel that is still waiting then is
given back. -/
def sendParcel (v : Conversation) (p : Parcel) : Value × Conversation :=
  let offer (v : Conversation) (blocked : Unit → Value × Conversation) : Value × Conversation :=
    match v.endpoint.send v.now false p with
    | .sent e => ("ok", { v with endpoint := e })
    | .refused _ e => (.record [("error", "Closed")], { v with endpoint := e })
    | .full => blocked ()
  offer v fun () =>
    let v := v.settle
    offer v fun () =>
      ("blocked", { v with endpoint := { v.endpoint with hub := v.endpoint.hub.unpack p } })

def send (v : Conversation) (m : Message) : Value × Conversation :=
  let (p, hub) := v.endpoint.hub.pack m
  sendParcel { v with endpoint := { v.endpoint with hub := hub } } p

def sendBytes (v : Conversation) (bytes : Bytes) : Value × Conversation :=
  let (packet, pool) := v.endpoint.hub.packetPool.takeFilled bytes
  let hub := { v.endpoint.hub with packetPool := pool }
  sendParcel { v with endpoint := { v.endpoint with hub := hub } } ⟨packet, none⟩

def setInterested (v : Conversation) (value : Bool) : Value × Conversation :=
  if v.endpoint.connection.amInterested = value then ("ok", v)
  else v.send (if value then .interested else .notInterested)

/-- The far end takes at most `count` bytes that have arrived. It sees the end of the stream when
it asks for more than there is. -/
def take (v : Conversation) (count : Option Nat) : Value × Conversation :=
  let outgoing := v.endpoint.link.outgoing
  let bytes := match count with
    | some n => outgoing.held.take n
    | none => outgoing.held
  let atEnd := outgoing.closed && (count.map fun n => decide (bytes.length < n)).getD true
  (.record [("bytes", Bytes.report bytes), ("eof", atEnd)],
    { v with endpoint := { v.endpoint with link := { v.endpoint.link with
        outgoing := outgoing.drop bytes.length } } })

def takeBlocks (v : Conversation) (count : Option Nat) : Value × Conversation :=
  let hub := v.endpoint.hub
  let (blocks, channel) := hub.blocks.takeMany (count.getD hub.blocks.items.length)
  let shown (b : Block) : Value := .record [("begin", b.offset), ("data", b.data.bytes.report),
    ("peer", b.sender.hex), ("piece", b.piece)]
  (.ofList shown blocks, { v with endpoint := { v.endpoint with hub := { hub with
      blocks := channel, blockPool := hub.blockPool.giveBackAll (blocks.map Block.data) } } })

def takeUploads (v : Conversation) (count : Option Nat) : Value × Conversation :=
  let hub := v.endpoint.hub
  let (requests, channel) := hub.uploads.takeMany (count.getD hub.uploads.items.length)
  let shown (r : UploadRequest) : Value :=
    let kind := match r.kind with
      | .request => "Request"
      | .cancel => "Cancel"
    .record [("kind", kind), ("peer", r.peerId.hex), ("request", r.request.describe)]
  (.ofList shown requests,
    { v with endpoint := { v.endpoint with hub := { hub with uploads := channel } } })

def closeBlocks (v : Conversation) : Value × Conversation :=
  let hub := v.endpoint.hub
  let (blocks, channel) := hub.blocks.shut
  (!hub.blocks.closed, { v with endpoint := { v.endpoint with hub := { hub with
      blocks := channel, blockPool := hub.blockPool.giveBackAll (blocks.map Block.data) } } })

def closeUploads (v : Conversation) : Value × Conversation :=
  let hub := v.endpoint.hub
  (!hub.uploads.closed, { v with endpoint := { v.endpoint with hub := { hub with
      uploads := hub.uploads.shut.2 } } })

def timer? (v : Conversation) : Option Nanoseconds :=
  (Endpoint.timer? v.endpoint.connection).map Nanoseconds.ceilMilliseconds

/-- Moves the clock, stopping at each timer before `target`. Every stop is at a later whole
millisecond, which bounds their number. -/
def advanceTo (target : Nanoseconds) : Nat → Conversation → Conversation
  | 0, v => settle { v with now := target }
  | fuel + 1, v => match v.timer? with
    | some time =>
      if time < target then advanceTo target fuel (settle { v with now := max v.now time })
      else settle { v with now := target }
    | none => settle { v with now := target }

def advance (v : Conversation) (span : Nanoseconds) : Conversation :=
  v.advanceTo (v.now + span) (span.toMilliseconds + 1)

def report (v : Conversation) (waits : List Awaited) : List (String × Value) :=
  let c := v.endpoint.connection
  let hub := v.endpoint.hub
  let time (t : Nanoseconds) : Value := t.toMilliseconds
  let result : Value := match c.status with
    | .ended (.ok ()) => "ok"
    | .ended (.error e) => e.report
    | _ => .absent
  [("at_ms", time v.now), ("am_choked", c.amChoked), ("peer_choked", c.peerChoked),
    ("am_interested", c.amInterested), ("peer_interested", c.peerInterested),
    ("knows_pieces", c.knowsPieces), ("bitfield", c.pieces.bytes.report),
    ("availability", hub.availability.report), ("connected_at", time c.connectedAt),
    ("last_received", time c.lastReceived), ("last_choke_change", .ofOption time c.lastChokeChange),
    ("last_interest_change", .ofOption time c.lastInterestChange),
    ("counters", c.counters.report), ("packets", hub.packetPool.report),
    ("blocks", hub.blockPool.report), ("disconnected", c.cancelled), ("run", result),
    ("waits", .ofList (fun a => a.report) waits)]

end Conversation

end TorrentCore
