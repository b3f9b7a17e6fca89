import TorrentCore.Decimal.Nanoseconds
import TorrentCore.Stream.Pipe

/-!
# Feeds

A feed is a stream whose behaviour is written down beforehand: chunks of bytes, pauses, failing
reads, and silence for ever. After its last event it has ended. One read gives at most the rest of
one chunk. A pause that was begun goes on by itself, also while nobody reads.
-/

namespace TorrentCore

/-- What a feed does next. -/
inductive FeedEvent where
  | chunk (bytes : Bytes)
  | pause (length : Nanoseconds)
  /-- A pause that was begun, up to the given time. -/
  | pausedUntil (time : Nanoseconds)
  | failure (cause : String)
  | silence
deriving DecidableEq, Repr

abbrev Feed := List FeedEvent

namespace Feed

def chunks (size : Nat) (bytes : Bytes) : Feed :=
  go bytes.length bytes
where
  go : Nat → Bytes → Feed
    | 0, _ => []
    | fuel + 1, bytes =>
      if bytes.isEmpty then []
      else .chunk (bytes.take (max size 1)) :: go fuel (bytes.drop (max size 1))

def size : Feed → Nat
  | [] => 0
  | .chunk bytes :: rest => bytes.length + size rest
  | _ :: rest => size rest

/-- Reads at most `room` bytes, waiting up to a deadline. Gives the time at which the read was over,
and nothing if the deadline came first. -/
def readBy (deadline : Nanoseconds) (room : Nat) :
    Nanoseconds → Feed → Option Arrival × Nanoseconds × Feed
  | now, [] => (some .ended, now, [])
  | now, event :: rest =>
    let last := max now deadline.ceilMilliseconds
    match event with
    | .chunk bytes =>
      if bytes.isEmpty then readBy deadline room now rest
      else
        let left := bytes.drop room
        (some (.data (bytes.take room)), now, if left.isEmpty then rest else .chunk left :: rest)
    | .pause length =>
      let time := now + length
      if time.ceilMilliseconds ≤ last then
        readBy deadline room (max now time.ceilMilliseconds) rest
      else (none, last, .pausedUntil time :: rest)
    | .pausedUntil time =>
      if time.ceilMilliseconds ≤ last then
        readBy deadline room (max now time.ceilMilliseconds) rest
      else (none, last, event :: rest)
    | .failure cause => (some (.failed cause), now, rest)
    | .silence => (none, last, event :: rest)

end Feed

end TorrentCore
