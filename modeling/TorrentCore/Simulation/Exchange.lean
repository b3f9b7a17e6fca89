import TorrentCore.Exchange
import TorrentCore.Stream.FeedReader

/-!
# Exchanging handshakes with a feed

The peer's side of the exchange is written down beforehand: what it sends is a feed, and what it
takes is a drain with room for some bytes.
-/

namespace TorrentCore

/-- The receiving end of a stream: it takes some bytes and then fails, or takes nothing more. -/
structure Drain where
  room : Option Nat
  /-- Why writing fails when there is no room. Without a cause, writing never ends. -/
  failure : Option String
  /-- Why what was written cannot be passed on. -/
  flushFailure : Option String
  taken : Bytes

inductive DrainWrite where
  | done
  | failed (cause : String)
  | stuck (rest : Bytes)

namespace Drain

def write (d : Drain) (bytes : Bytes) : DrainWrite × Drain :=
  let fitting := match d.room with
    | some room => min room bytes.length
    | none => bytes.length
  let d := { d with
    room := d.room.map (· - fitting)
    taken := d.taken ++ bytes.take fitting }
  if fitting < bytes.length then
    match d.failure with
    | some cause => (.failed cause, d)
    | none => (.stuck (bytes.drop fitting), d)
  else match d.flushFailure with
    | some cause => (.failed cause, d)
    | none => (.done, d)

end Drain

structure ScriptedExchange where
  exchange : Exchange
  feed : Feed
  drain : Drain
  now : Nanoseconds
  cancelAt : Option Nanoseconds

namespace ScriptedExchange

/-- When the exchange stops waiting: at its deadline, or when it is called off before that. -/
def limit (s : ScriptedExchange) : Nanoseconds :=
  match s.cancelAt with
  | some time => min time s.exchange.deadline
  | none => s.exchange.deadline

def giveUp (s : ScriptedExchange) : ScriptedExchange :=
  let exchange := match s.cancelAt with
    | some time => if time ≤ s.exchange.deadline then s.exchange.cancel else s.exchange.expire
    | none => s.exchange.expire
  { s with exchange := exchange, now := max s.now s.limit.ceilMilliseconds }

def run (served : Identifier → Bool) : Nat → ScriptedExchange → ScriptedExchange
  | 0, s => s
  | fuel + 1, s => match s.exchange.phase with
    | .over _ => s
    | .writing rest => match s.drain.write rest with
      | (.done, drain) =>
        run served fuel { s with exchange := s.exchange.written s.now, drain := drain }
      | (.failed cause, drain) =>
        { s with exchange := s.exchange.fail (.transport cause), drain := drain }
      | (.stuck rest, drain) =>
        giveUp { s with exchange := { s.exchange with phase := .writing rest }, drain := drain }
    | .reading =>
      match s.feed.readBy s.limit s.exchange.buffer.room s.now with
      | (none, now, feed) => giveUp { s with feed := feed, now := now }
      | (some arrival, now, feed) =>
        run served fuel { s with
          exchange := Exchange.receive served s.exchange now arrival
          feed := feed
          now := now }

/-- Every read but the last takes a byte, and there are two changes of direction at most. -/
def fuel (s : ScriptedExchange) : Nat := Feed.size s.feed + s.feed.length + 4

/-- What follows in the feed is read through the buffer of the exchange. -/
def reader (s : ScriptedExchange) : FeedReader := ⟨s.exchange.buffer, s.feed, s.now⟩

end ScriptedExchange

end TorrentCore
