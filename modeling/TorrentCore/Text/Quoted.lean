import TorrentCore.Bytes
import TorrentCore.Text.Printable

/-!
# Showing characters and byte strings in messages

A character in a message stands in single quotes, and one that could not be read there is written
as an escape. A byte string is shown as text when all of it reads as text, in digits when it is
short, and otherwise only by its length.
-/

namespace TorrentCore

def Text.hexNumber (n : Nat) : String := String.ofList (Nat.toDigits 16 n)

/-- A character between single quotes. Quote, backslash and the usual controls have short escapes,
other unprintable characters are written by their code point. -/
def Text.quotedChar (c : Char) : String :=
  let body :=
    if c = '\'' then "\\'"
    else if c = '\\' then "\\\\"
    else if c = '\n' then "\\n"
    else if c = '\r' then "\\r"
    else if c = '\t' then "\\t"
    else if c = '\x00' then "\\0"
    else if Text.isPrintable c then String.singleton c
    else "\\u\x7b" ++ Text.hexNumber c.toNat ++ "\x7d"
  "'" ++ body ++ "'"

def Text.isPlain (c : Char) : Bool :=
  c != '\'' && c != '"' && c != '\\' && Text.isPrintable c

def Bytes.plainText? (bytes : Bytes) : Option String :=
  match String.fromUTF8? bytes.toByteArray with
  | some text => if text.toList.all Text.isPlain then some text else none
  | none => none

/-- A byte string in a message; `quoted` puts text between double quotes. -/
def Bytes.describe (quoted : Bool) (bytes : Bytes) : String :=
  if bytes.all (· == 0) then s!"<{bytes.length} bytes, all zeroes>"
  else match bytes.plainText? with
    | some text => if quoted then "\"" ++ text ++ "\"" else text
    | none =>
      if bytes.length ≤ 20 then s!"<{bytes.length} bytes, 0x{bytes.hex}>"
      else s!"<{bytes.length} bytes>"

end TorrentCore
