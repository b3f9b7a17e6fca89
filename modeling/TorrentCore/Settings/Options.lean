import TorrentCore.Address
import TorrentCore.Geometry
import TorrentCore.Identifier
import TorrentCore.Reservation.Policy
import TorrentCore.Wire.Message

/-!
# Options

What can be chosen about connections, torrents and the whole swarm, with the values that hold
unless others are given.
-/

namespace TorrentCore

structure ConnectionOptions where
  /-- A peer that is silent for longer is dropped. -/
  readTimeout : Nanoseconds := 180000000000
  writeTimeout : Nanoseconds := 10000000000
  keepAlive : Nanoseconds := 120000000000
  /-- How many packets may wait to be written before senders have to wait. -/
  queueLength : Nat := 64
  maxMessage : UInt32 := defaultMaxMessage

structure SessionOptions where
  blockLength : UInt32 := defaultBlockLength
  blockChannel : Nat := 256
  uploadChannel : Nat := 256
  /-- Asking for more than this at once breaks the protocol. -/
  maxRequest : UInt32 := defaultMaxRequest
  maxIdleBuffers : Nat := 128
  /-- One truth value for each piece that tells whether it is wanted; all are if not given. -/
  allowed : Option (List Bool) := none

structure ListenerOptions where
  address : Address

structure SwarmOptions where
  peerId : Option Identifier := none
  listen : Option ListenerOptions := none
  /-- How many connections may be without a completed handshake. -/
  maxHalfOpen : Nat := 50
  reconcileInterval : Nanoseconds := 5000000000
  maxPeersPerTorrent : Nat := 50
  /-- For connecting and the handshake together. -/
  connectTimeout : Nanoseconds := 5000000000
  handshakeTimeout : Nanoseconds := 5000000000
  connection : ConnectionOptions := {}
  reservation : ReservationPolicy := {}

end TorrentCore
