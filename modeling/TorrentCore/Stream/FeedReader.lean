import TorrentCore.Stream.Feed
import TorrentCore.Stream.ReadBuffer

/-!
# Reading from feeds

A reader takes handshakes and messages off a feed through a read buffer. The wait for a handshake
is bounded as a whole, the wait for a message at each read. A read that is given up on loses
nothing: what had arrived stays in the buffer.
-/

namespace TorrentCore

/-- A read buffer, what the stream still does, and the time. -/
structure FeedReader where
  buffer : ReadBuffer
  feed : Feed
  now : Nanoseconds

namespace FeedReader

def read (r : FeedReader) (deadline : Nanoseconds) : Option Arrival × FeedReader :=
  let (arrival, now, feed) := r.feed.readBy deadline r.buffer.room r.now
  (arrival, { r with feed := feed, now := now })

/-- Each read but the last one takes at least one byte off the feed. -/
def fuel (r : FeedReader) : Nat := Feed.size r.feed + r.feed.length + 1

def messageLoop (timeout : Nanoseconds) (limit : UInt32) :
    Nat → FeedReader → Except Error Message × FeedReader
  | 0, r => (.error (.timeout "reading"), r)
  | fuel + 1, r => match r.buffer.message limit with
    | .item m rest => (.ok m, { r with buffer := rest })
    | .failed e b => (.error e, { r with buffer := b })
    | .more b =>
      let r := { r with buffer := b }
      match r.read (r.now + timeout) with
      | (none, r) => (.error (.timeout "reading"), r)
      | (some (.failed cause), r) => (.error (.read cause), r)
      | (some .ended, r) | (some (.data []), r) => (.error .peerDisconnected, r)
      | (some (.data bytes), r) =>
        messageLoop timeout limit fuel { r with buffer := r.buffer.receive bytes }

def message (r : FeedReader) (timeout : Nanoseconds) (limit : UInt32) :
    Except Error Message × FeedReader :=
  r.messageLoop timeout limit r.fuel

def handshakeLoop (deadline : Nanoseconds) :
    Nat → FeedReader → Except HandshakeError Handshake × FeedReader
  | 0, r => (.error .noResponse, r)
  | fuel + 1, r => match r.buffer.handshake with
    | .item h rest => (.ok h, { r with buffer := rest })
    | .failed e b => (.error e, { r with buffer := b })
    | .more b =>
      let r := { r with buffer := b }
      match r.read deadline with
      | (none, r) => (.error .noResponse, r)
      | (some (.failed cause), r) => (.error (.transport cause), r)
      | (some .ended, r) | (some (.data []), r) => (.error r.buffer.truncated, r)
      | (some (.data bytes), r) =>
        handshakeLoop deadline fuel { r with buffer := r.buffer.receive bytes }

def handshake (r : FeedReader) (timeout : Nanoseconds) :
    Except HandshakeError Handshake × FeedReader :=
  r.handshakeLoop (r.now + timeout) r.fuel

end FeedReader

end TorrentCore
