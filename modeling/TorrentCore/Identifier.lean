import TorrentCore.Settings.Value
import TorrentCore.Text.Quoted

/-!
# Identifiers

Torrents and peers are named by identifiers of twenty bytes. An identifier is shown as forty
lower-case hexadecimal digits, read from digits of either case, and ordered by its bytes.
-/

namespace TorrentCore

def identifierLength : Nat := 20

/-- A name of twenty bytes. -/
structure Identifier where
  bytes : Bytes
  length_bytes : bytes.length = 20
deriving DecidableEq

inductive IdentifierError where
  /-- The UTF-8 form, or the byte string, has this many bytes. -/
  | wrongLength (received : Nat)
  /-- A byte that is no hexadecimal digit, and its position. -/
  | invalidDigit (code : UInt8) (position : Nat)
  | wrongKind (kind : String)
deriving DecidableEq, Repr

/-- The wording when a plain text is read. -/
def IdentifierError.parseMessage : IdentifierError → String
  | .wrongLength _ => "expected a hex string of length 40"
  | .invalidDigit code position =>
    "Invalid character " ++ Text.quotedChar (Char.ofUInt8 code) ++ s!" at position {position}"
  | .wrongKind kind => "invalid type: " ++ kind

def IdentifierError.message : IdentifierError → String
  | .wrongLength received =>
    s!"invalid length {received}, expected a 20 byte slice or a 40 character hex string"
  | .wrongKind kind =>
    "invalid type: " ++ kind ++ ", expected a 20 byte slice or a 40 character hex string"
  | .invalidDigit code position => IdentifierError.parseMessage (.invalidDigit code position)

namespace Identifier

instance : Inhabited Identifier := ⟨⟨List.replicate 20 0, rfl⟩⟩

instance : Ord Identifier := ⟨fun a b => compare a.bytes b.bytes⟩

def zero : Identifier := ⟨List.replicate 20 0, rfl⟩

def ofBytes? (bytes : Bytes) : Option Identifier :=
  if h : bytes.length = 20 then some ⟨bytes, h⟩ else none

@[simp] theorem ofBytes?_bytes (id : Identifier) : ofBytes? id.bytes = some id := by
  simp [ofBytes?, id.length_bytes]

theorem ofBytes?_eq_some_iff {bytes : Bytes} {id : Identifier} :
    ofBytes? bytes = some id ↔ id.bytes = bytes := by
  constructor
  · intro h
    unfold ofBytes? at h
    split at h
    · cases h; rfl
    · cases h
  · rintro rfl
    exact ofBytes?_bytes id

/-- The first twenty bytes, filled up with zeros if there are fewer. -/
def ofStart (bytes : Bytes) : Identifier :=
  ⟨(bytes ++ List.replicate 20 0).take 20, by simp⟩

def hex (id : Identifier) : String := id.bytes.hex

instance : ToString Identifier := ⟨hex⟩

def parse (text : String) : Except IdentifierError Identifier :=
  let codes := Bytes.ofText text
  if codes.length ≠ 40 then .error (.wrongLength codes.length)
  else match Bytes.ofHex codes 0 with
    | .error (code, position) => .error (.invalidDigit code position)
    | .ok bytes => match ofBytes? bytes with
      | some id => .ok id
      | none => .error (.wrongLength codes.length)

def ofByteValue (bytes : Bytes) : Except IdentifierError Identifier :=
  match ofBytes? bytes with
  | some id => .ok id
  | none => .error (.wrongLength bytes.length)

def ofValue : Value → Except IdentifierError Identifier
  | .text text => parse text
  | value => .error (.wrongKind value.kindText)

def toValue (id : Identifier) : Value := .text id.hex

/-- The form in packed documents: a byte string of one length byte. -/
def packed (id : Identifier) : Bytes := 0xc4 :: 0x14 :: id.bytes

end Identifier

end TorrentCore
