import TorrentCore.Settings.Options

/-!
# Options in documents

Options are read from records by the names of their fields, or from lists by their order. Fields
that are not known are passed over. Times are whole seconds, or milliseconds for reservations.
-/

namespace TorrentCore

namespace Value

def nat? (limit : Nat) : Value → Option Nat
  | integer value => if 0 ≤ value ∧ value.toNat ≤ limit then some value.toNat else none
  | _ => none

def count? : Value → Option Nat := nat? 18446744073709551615

def word? (v : Value) : Option UInt32 := (nat? 4294967295 v).map UInt32.ofNat

def seconds? (v : Value) : Option Nanoseconds := v.count?.map Nanoseconds.ofSeconds

def milliseconds? (v : Value) : Option Nanoseconds := v.count?.map Nanoseconds.ofMilliseconds

def real? : Value → Option Float
  | real value => some value
  | integer value => some (if value < 0 then -value.natAbs.toFloat else value.natAbs.toFloat)
  | _ => none

def address? : Value → Option Address
  | text written => Address.parse? written
  | _ => none

def optional? {α : Type} (read : Value → Option α) : Value → Option (Option α)
  | absent => some none
  | value => (read value).map some

/-- The values of the fields with these names, in their order. A list gives them by position and
must not be longer. -/
def fields? (names : List String) : Value → Option (List (Option Value))
  | record fields => some (names.map fun name => field? name fields)
  | list items =>
    if names.length < items.length then none
    else some ((items.map some) ++ List.replicate (names.length - items.length) none)
  | _ => none

def required? {α : Type} (read : Value → Option α) (v : Option (Option Value)) : Option α :=
  match v with
  | some (some value) => read value
  | _ => none

def defaulted? {α : Type} (read : Value → Option α) (default : α) (v : Option (Option Value)) :
    Option α :=
  match v with
  | some (some value) => read value
  | _ => some default

end Value

open Value

namespace ConnectionOptions

def fieldNames : List String :=
  ["read_timeout", "write_timeout", "keep_alive_interval", "outbound_queue_len",
    "max_message_len"]

def ofValue? (v : Value) : Option ConnectionOptions := do
  let f ← v.fields? fieldNames
  pure {
    readTimeout := ← required? seconds? f[0]?
    writeTimeout := ← required? seconds? f[1]?
    keepAlive := ← required? seconds? f[2]?
    queueLength := ← required? count? f[3]?
    maxMessage := ← required? word? f[4]? }

def toValue (o : ConnectionOptions) : Value :=
  .record [("read_timeout", .integer (o.readTimeout / 1000000000)),
    ("write_timeout", .integer (o.writeTimeout / 1000000000)),
    ("keep_alive_interval", .integer (o.keepAlive / 1000000000)),
    ("outbound_queue_len", .integer o.queueLength),
    ("max_message_len", .integer o.maxMessage.toNat)]

end ConnectionOptions

namespace ReservationPolicy

def fieldNames : List String := ["max_ttl", "min_ttl", "endgame_threshold"]

def ofValue? (v : Value) : Option ReservationPolicy := do
  let f ← v.fields? fieldNames
  pure {
    maxTtl := ← required? milliseconds? f[0]?
    minTtl := ← required? milliseconds? f[1]?
    endgame := ← required? real? f[2]? }

def toValue (p : ReservationPolicy) : Value :=
  .record [("max_ttl", .integer p.maxTtl.toMilliseconds),
    ("min_ttl", .integer p.minTtl.toMilliseconds),
    ("endgame_threshold", .real p.endgame)]

end ReservationPolicy

namespace SessionOptions

def fieldNames : List String :=
  ["block_size", "block_channel_len", "upload_channel_len", "max_request_len",
    "max_pooled_buffers"]

/-- Which pieces are wanted is not part of the document. -/
def ofValue? (v : Value) : Option SessionOptions := do
  let f ← v.fields? fieldNames
  pure {
    blockLength := ← required? word? f[0]?
    blockChannel := ← required? count? f[1]?
    uploadChannel := ← required? count? f[2]?
    maxRequest := ← required? word? f[3]?
    maxIdleBuffers := ← required? count? f[4]? }

def toValue (o : SessionOptions) : Value :=
  .record [("block_size", .integer o.blockLength.toNat),
    ("block_channel_len", .integer o.blockChannel),
    ("upload_channel_len", .integer o.uploadChannel),
    ("max_request_len", .integer o.maxRequest.toNat),
    ("max_pooled_buffers", .integer o.maxIdleBuffers)]

end SessionOptions

namespace ListenerOptions

def ofValue? (v : Value) : Option ListenerOptions := do
  let f ← v.fields? ["listen_addr"]
  pure ⟨← required? address? f[0]?⟩

def toValue (o : ListenerOptions) : Value := .record [("listen_addr", .text o.address.text)]

end ListenerOptions

namespace SwarmOptions

def fieldNames : List String :=
  ["peer_id", "listen", "max_half_open", "reconcile_interval", "max_peers_per_torrent",
    "connect_timeout", "handshake_timeout", "peer_connection", "reservation"]

def ofValue? (v : Value) : Option SwarmOptions := do
  let f ← v.fields? fieldNames
  let d : SwarmOptions := {}
  pure {
    peerId := ← defaulted? (optional? fun v => (Identifier.ofValue v).toOption) d.peerId f[0]?
    listen := ← defaulted? (optional? ListenerOptions.ofValue?) d.listen f[1]?
    maxHalfOpen := ← defaulted? count? d.maxHalfOpen f[2]?
    reconcileInterval := ← defaulted? seconds? d.reconcileInterval f[3]?
    maxPeersPerTorrent := ← defaulted? count? d.maxPeersPerTorrent f[4]?
    connectTimeout := ← defaulted? seconds? d.connectTimeout f[5]?
    handshakeTimeout := ← defaulted? seconds? d.handshakeTimeout f[6]?
    connection := ← defaulted? ConnectionOptions.ofValue? d.connection f[7]?
    reservation := ← defaulted? ReservationPolicy.ofValue? d.reservation f[8]? }

def toValue (o : SwarmOptions) : Value :=
  .record [("peer_id", match o.peerId with | some id => id.toValue | none => .absent),
    ("listen", match o.listen with | some l => l.toValue | none => .absent),
    ("max_half_open", .integer o.maxHalfOpen),
    ("reconcile_interval", .integer (o.reconcileInterval / 1000000000)),
    ("max_peers_per_torrent", .integer o.maxPeersPerTorrent),
    ("connect_timeout", .integer (o.connectTimeout / 1000000000)),
    ("handshake_timeout", .integer (o.handshakeTimeout / 1000000000)),
    ("peer_connection", o.connection.toValue),
    ("reservation", o.reservation.toValue)]

end SwarmOptions

def ListenerOptions.standard : ListenerOptions := ⟨⟨.v4 [0, 0, 0, 0], 6881⟩⟩

end TorrentCore
