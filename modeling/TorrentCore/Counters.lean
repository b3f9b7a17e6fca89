import TorrentCore.Decimal.Nanoseconds

/-!
# Counters

What went over a connection, and what a torrent has verified. Counters are words and wrap around.
-/

namespace TorrentCore

structure PeerCounters where
  fetchedBytes : UInt64 := 0
  fetchedBlocks : UInt32 := 0
  uploadedBytes : UInt64 := 0
  uploadedBlocks : UInt32 := 0
  discardedBlocks : UInt32 := 0
deriving DecidableEq, Repr, Inhabited

namespace PeerCounters

def blockReceived (c : PeerCounters) (length : Nat) : PeerCounters :=
  { c with
    fetchedBytes := c.fetchedBytes + UInt64.ofNat length
    fetchedBlocks := c.fetchedBlocks + 1 }

def blockUploaded (c : PeerCounters) (length : Nat) : PeerCounters :=
  { c with
    uploadedBytes := c.uploadedBytes + UInt64.ofNat length
    uploadedBlocks := c.uploadedBlocks + 1 }

def blockDiscarded (c : PeerCounters) : PeerCounters :=
  { c with discardedBlocks := c.discardedBlocks + 1 }

end PeerCounters

structure TorrentCounters where
  verifiedPieces : UInt32 := 0
  verifiedBytes : UInt64 := 0
  hashFailures : UInt32 := 0
  fetchedBytes : UInt64 := 0
  uploadedBytes : UInt64 := 0
  pieceMilliseconds : UInt64 := 0
deriving DecidableEq, Repr, Inhabited

namespace TorrentCounters

def pieceVerified (c : TorrentCounters) (length : Nat) (took : Nanoseconds) : TorrentCounters :=
  { c with
    verifiedPieces := c.verifiedPieces + 1
    verifiedBytes := c.verifiedBytes + UInt64.ofNat length
    pieceMilliseconds := c.pieceMilliseconds + UInt64.ofNat took.toMilliseconds }

def hashFailed (c : TorrentCounters) : TorrentCounters :=
  { c with hashFailures := c.hashFailures + 1 }

def blockFetched (c : TorrentCounters) (length : Nat) : TorrentCounters :=
  { c with fetchedBytes := c.fetchedBytes + UInt64.ofNat length }

def blockUploaded (c : TorrentCounters) (length : Nat) : TorrentCounters :=
  { c with uploadedBytes := c.uploadedBytes + UInt64.ofNat length }

/-- The average time spent on a verified piece, computed in doubles. -/
def averagePieceTime (c : TorrentCounters) : Option Nanoseconds :=
  if c.verifiedPieces = 0 then none
  else some (Nanoseconds.ofFloatSeconds
    (c.pieceMilliseconds.toFloat / c.verifiedPieces.toNat.toFloat / 1000.0))

end TorrentCounters

end TorrentCore
