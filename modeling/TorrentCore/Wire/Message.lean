import TorrentCore.Bytes
import TorrentCore.Text.Quoted

/-!
# Peer messages and their frames

A message travels in a frame: a word with the length of the rest, one byte with the kind of the
message, and fields of fixed width, the last of which may be a byte string that fills the frame.
The empty frame keeps a silent connection alive.
-/

namespace TorrentCore

structure BlockRequest where
  index : UInt32
  offset : UInt32
  length : UInt32
deriving DecidableEq, Repr, Inhabited

def BlockRequest.describe (r : BlockRequest) : String :=
  "Request \x7b index: " ++ toString r.index ++ ", begin: " ++ toString r.offset
    ++ ", length: " ++ toString r.length ++ " \x7d"

inductive Message where
  | keepAlive
  | choke
  | unchoke
  | interested
  | notInterested
  | has (index : UInt32)
  | bitfield (bits : Bytes)
  | request (request : BlockRequest)
  | piece (index offset : UInt32) (block : Bytes)
  | cancel (request : BlockRequest)
deriving DecidableEq, Repr, Inhabited

/-- Why no message could be taken from the front of a byte string. -/
inductive DecodeError where
  /-- The frame is not complete; at least this many bytes are missing from the named part. -/
  | notEnough (missing : Nat) (part : String)
  /-- A complete frame of a kind that is not spoken here. -/
  | unsupported (kind : UInt8) (frameLength : Nat)
  | wrongLength (received expected : UInt32) (kind : UInt8)
  | tooLong (received limit : UInt32)
deriving DecidableEq, Repr

def DecodeError.message : DecodeError → String
  | .notEnough missing part =>
    s!"not enough data to deserialize {part}: expected at least {missing} more bytes"
  | .unsupported kind _ => s!"unsupported message id {kind}"
  | .wrongLength received expected kind =>
    s!"incorrect len prefix for message id {kind}, expected {expected}, received {received}"
  | .tooLong received limit => s!"message length {received} exceeds maximum of {limit}"

def lengthWordSize : Nat := 4

/-- What stands before the block in the frame of a piece message. -/
def pieceHeaderSize : Nat := 13

/-- The longest frame that is accepted unless another limit is chosen, length word not counted. -/
def defaultMaxMessage : UInt32 := 262144

namespace Bytes

def missing : Bytes → Nat → Nat
  | _, 0 => 0
  | [], count + 1 => count + 1
  | _ :: rest, count + 1 => missing rest count

theorem missing_eq (bytes : Bytes) (count : Nat) : bytes.missing count = count - bytes.length := by
  fun_induction missing bytes count <;> simp_all

end Bytes

namespace Message

def name : Message → String
  | keepAlive => "keepalive"
  | choke => "choke"
  | unchoke => "unchoke"
  | interested => "interested"
  | notInterested => "not_interested"
  | has _ => "have"
  | bitfield _ => "bitfield"
  | request _ => "request"
  | piece _ _ _ => "piece"
  | cancel _ => "cancel"

def lengthWord : Message → UInt32
  | keepAlive => 0
  | choke | unchoke | interested | notInterested => 1
  | has _ => 5
  | bitfield bits => 1 + UInt32.ofNat bits.length
  | request _ | cancel _ => 13
  | piece _ _ block => 9 + UInt32.ofNat block.length

/-- The byte that tells the kind. -/
def kind? : Message → Option UInt8
  | keepAlive => none
  | choke => some 0
  | unchoke => some 1
  | interested => some 2
  | notInterested => some 3
  | has _ => some 4
  | bitfield _ => some 5
  | request _ => some 6
  | piece _ _ _ => some 7
  | cancel _ => some 8

def payload : Message → Bytes
  | keepAlive | choke | unchoke | interested | notInterested => []
  | has index => Bytes.ofWord index
  | bitfield bits => bits
  | request r | cancel r => Bytes.ofWord r.index ++ Bytes.ofWord r.offset ++ Bytes.ofWord r.length
  | piece index offset block => Bytes.ofWord index ++ Bytes.ofWord offset ++ block

def encode (m : Message) : Bytes :=
  Bytes.ofWord m.lengthWord ++ m.kind?.toList ++ m.payload

def wireLength (m : Message) : Nat := 4 + m.lengthWord.toNat

/-- The start of a frame with a block of this length, without the block. -/
def encodePieceHeader (index offset blockLength : UInt32) : Bytes :=
  Bytes.ofWord (9 + blockLength) ++ [7] ++ Bytes.ofWord index ++ Bytes.ofWord offset

/-- The length of the frame at the front, its length word included, once all of it is there. -/
def frameLength (bytes : Bytes) (limit : UInt32) : Except DecodeError Nat :=
  match bytes with
  | a :: b :: c :: d :: rest =>
    let word := Bytes.joinWord a b c d
    if limit < word then .error (.tooLong word limit)
    else match Bytes.missing rest word.toNat with
      | 0 => .ok (4 + word.toNat)
      | missing + 1 => .error (.notEnough (missing + 1) "message")
  | short => .error (.notEnough (4 - short.length) "length prefix")

/-- The message of a kind with these fields, in a frame whose length word is `word`. -/
def ofPayload (word : UInt32) (kind : UInt8) (payload : Bytes) (frame : Nat) :
    Except DecodeError Message :=
  let exactly (expected : UInt32) (m : Message) : Except DecodeError Message :=
    if word = expected then .ok m else .error (.wrongLength word expected kind)
  let blockRequest : BlockRequest :=
    ⟨payload.toWord, Bytes.toWord (payload.drop 4), Bytes.toWord (payload.drop 8)⟩
  match kind.toNat with
  | 0 => exactly 1 .choke
  | 1 => exactly 1 .unchoke
  | 2 => exactly 1 .interested
  | 3 => exactly 1 .notInterested
  | 4 => exactly 5 (.has payload.toWord)
  | 5 => .ok (.bitfield payload)
  | 6 => exactly 13 (.request blockRequest)
  | 7 =>
    if word < 10 then .error (.wrongLength word 10 kind)
    else .ok (.piece payload.toWord (Bytes.toWord (payload.drop 4)) (payload.drop 8))
  | 8 => exactly 13 (.cancel blockRequest)
  | _ => .error (.unsupported kind frame)

/-- The message at the front and how many bytes it takes. -/
def decode (bytes : Bytes) (limit : UInt32) : Except DecodeError (Message × Nat) :=
  match frameLength bytes limit with
  | .error e => .error e
  | .ok frame =>
    let body := bytes.slice 4 (frame - 4)
    match body with
    | [] => .ok (.keepAlive, frame)
    | kind :: payload =>
      (ofPayload (UInt32.ofNat (frame - 4)) kind payload frame).map fun m => (m, frame)

def describe : Message → String
  | keepAlive => "KeepAlive"
  | choke => "Choke"
  | unchoke => "Unchoke"
  | interested => "Interested"
  | notInterested => "NotInterested"
  | has index => s!"Have({index})"
  | bitfield bits => "Bitfield(" ++ bits.describe true ++ ")"
  | request r => "Request(" ++ r.describe ++ ")"
  | piece index offset block =>
    "Piece(Piece \x7b index: " ++ toString index ++ ", begin: " ++ toString offset
      ++ ", block: " ++ block.describe true ++ " \x7d)"
  | cancel r => "Cancel(" ++ r.describe ++ ")"

end Message

end TorrentCore
