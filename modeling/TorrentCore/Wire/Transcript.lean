import TorrentCore.Wire.Message

/-!
# Transcripts

A transcript is a whole byte string read as one message after another. Frames of a kind that is not
spoken here are passed over; any other failure ends the transcript, and so does the end of the
bytes.
-/

namespace TorrentCore

/-- A message or a failure, and the bytes it took. -/
structure TranscriptEntry where
  outcome : Except DecodeError Message
  taken : Bytes

structure Transcript where
  entries : List TranscriptEntry
  left : Bytes

namespace TranscriptEntry

/-- The first entry of a byte string. A failure that ends the transcript takes nothing. -/
def first (limit : UInt32) (bytes : Bytes) : TranscriptEntry :=
  match Message.decode bytes limit with
  | .ok (m, size) => ⟨.ok m, bytes.take size⟩
  | .error (.unsupported kind frame) => ⟨.error (.unsupported kind frame), bytes.take frame⟩
  | .error e => ⟨.error e, []⟩

def isFinal (e : TranscriptEntry) : Bool := e.taken.isEmpty

end TranscriptEntry

namespace Transcript

def read (limit : UInt32) : Nat → Bytes → Transcript
  | 0, bytes => ⟨[], bytes⟩
  | fuel + 1, bytes =>
    let entry := TranscriptEntry.first limit bytes
    let rest := bytes.drop entry.taken.length
    if entry.isFinal || rest.isEmpty then ⟨[entry], rest⟩
    else
      let t := read limit fuel rest
      ⟨entry :: t.entries, t.left⟩

/-- The transcript of a byte string. There is at least one entry, and each but the last takes
some bytes. -/
def ofBytes (bytes : Bytes) (limit : UInt32) : Transcript := read limit (bytes.length + 1) bytes

end Transcript

end TorrentCore
