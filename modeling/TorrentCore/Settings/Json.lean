import TorrentCore.Decimal.Numeral
import TorrentCore.Settings.Value

/-!
# Values in JSON

A value is read from JSON text in one pass. What has been opened and not yet closed waits on a
stack, so texts may be nested to any depth.
-/

namespace TorrentCore

/-- A list or record that is still open, with what it holds so far, last first. -/
inductive OpenValue where
  | list (items : List Value)
  | record (fields : List (String × Value)) (key : String)

namespace Json

/-! ## Text -/

def isBlank (c : Char) : Bool := c = ' ' || c = '\t' || c = '\n' || c = '\r'

def skipBlank (text : List Char) : List Char := text.dropWhile isBlank

def hexDigit? (c : Char) : Option Nat :=
  if '0' ≤ c ∧ c ≤ '9' then some (c.toNat - '0'.toNat)
  else if 'a' ≤ c ∧ c ≤ 'f' then some (c.toNat - 'a'.toNat + 10)
  else if 'A' ≤ c ∧ c ≤ 'F' then some (c.toNat - 'A'.toNat + 10)
  else none

/-- The sixteen-bit unit of four hexadecimal digits. -/
def unit? (a b c d : Char) : Option Nat := do
  pure ((((← hexDigit? a) * 16 + (← hexDigit? b)) * 16 + (← hexDigit? c)) * 16 + (← hexDigit? d))

/-- What a unit gives: a character, or the first half of one. -/
inductive Decoded where
  | char (c : Char)
  | half (unit : Nat)

/-- Decodes a unit, behind the first half of a character or not. Both halves of a character must be
there, and in order. -/
def decode? (half : Option Nat) (unit : Nat) : Option Decoded :=
  let isFirst := 0xd800 ≤ unit && unit < 0xdc00
  let isSecond := 0xdc00 ≤ unit && unit < 0xe000
  match half with
  | some first =>
    if isSecond then some (.char (Char.ofNat (0x10000 + (first - 0xd800) * 0x400 + (unit - 0xdc00))))
    else none
  | none =>
    if isFirst then some (.half unit) else if isSecond then none else some (.char (Char.ofNat unit))

/-- The character that is written behind a backslash, unless its code is. -/
def escaped? (c : Char) : Option Char :=
  match c with
  | '"' | '\\' | '/' => some c
  | 'b' => some '\x08'
  | 'f' => some '\x0c'
  | 'n' => some '\n'
  | 'r' => some '\r'
  | 't' => some '\t'
  | _ => none

/-- Reads a string to its closing quote and appends it to `read`. A first half of a character may
wait for its second half, which must follow at once. -/
def text? (half : Option Nat) (read : String) : List Char → Option (String × List Char)
  | '\\' :: 'u' :: a :: b :: c :: d :: rest => match (unit? a b c d).bind (decode? half) with
    | some (.char c) => text? none (read.push c) rest
    | some (.half unit) => text? (some unit) read rest
    | none => none
  | '\\' :: c :: rest => match half, escaped? c with
    | none, some c => text? none (read.push c) rest
    | _, _ => none
  | c :: rest =>
    if half.isSome || c < ' ' then none
    else if c = '"' then some (read, rest)
    else text? none (read.push c) rest
  | [] => none

def key? (text : List Char) : Option (String × List Char) :=
  match skipBlank text with
  | '"' :: rest => match text? none "" rest with
    | some (key, rest) => match skipBlank rest with
      | ':' :: rest => some (key, rest)
      | _ => none
    | none => none
  | _ => none

/-! ## Values -/

/-- The record of these fields, given last first. Of fields with one name the last one counts. -/
def close (fields : List (String × Value)) : Value :=
  .record (fields.foldl (fun kept f => if (kept.lookup f.1).isSome then kept else f :: kept) [])

/-- What follows a value. -/
inductive After where
  | done (value : Value)
  | next (stack : List OpenValue) (rest : List Char)

def place (value : Value) : List OpenValue → List Char → Option After
  | [], rest => match skipBlank rest with
    | [] => some (.done value)
    | _ => none
  | .list items :: stack, rest => match skipBlank rest with
    | ',' :: rest => some (.next (.list (value :: items) :: stack) rest)
    | ']' :: rest => place (.list (value :: items).reverse) stack rest
    | _ => none
  | .record fields key :: stack, rest => match skipBlank rest with
    | ',' :: rest => match key? rest with
      | some (next, rest) => some (.next (.record ((key, value) :: fields) next :: stack) rest)
      | none => none
    | '}' :: rest => place (close ((key, value) :: fields)) stack rest
    | _ => none

def number? (text : List Char) : Option (Value × List Char) :=
  match Numeral.read? text with
  | none => none
  | some (n, rest) => match n.integer? with
    | some value => some (.integer value, rest)
    | none => n.real?.map fun value => (.real value, rest)

/-- What a text begins with: a whole value, or one that is open then. -/
inductive Front where
  | whole (value : Value) (rest : List Char)
  | opened (value : OpenValue) (rest : List Char)

def front? (text : List Char) : Option Front :=
  match skipBlank text with
  | 'n' :: 'u' :: 'l' :: 'l' :: rest => some (.whole .absent rest)
  | 't' :: 'r' :: 'u' :: 'e' :: rest => some (.whole (.truth true) rest)
  | 'f' :: 'a' :: 'l' :: 's' :: 'e' :: rest => some (.whole (.truth false) rest)
  | '"' :: rest => (text? none "" rest).map fun (s, rest) => .whole (.text s) rest
  | '[' :: rest => match skipBlank rest with
    | ']' :: rest => some (.whole (.list []) rest)
    | rest => some (.opened (.list []) rest)
  | '{' :: rest => match skipBlank rest with
    | '}' :: rest => some (.whole (.record []) rest)
    | rest => (key? rest).map fun (key, rest) => .opened (.record [] key) rest
  | text => (number? text).map fun (value, rest) => .whole value rest

/-- Reads on where a value is expected. Every round takes a character, so `fuel` may be the length
of the text. -/
def read? (fuel : Nat) (stack : List OpenValue) (text : List Char) : Option Value :=
  match fuel with
  | 0 => none
  | fuel + 1 => match front? text with
    | none => none
    | some (.opened value rest) => read? fuel (value :: stack) rest
    | some (.whole value rest) => match place value stack rest with
      | none => none
      | some (.done value) => some value
      | some (.next stack rest) => read? fuel stack rest

end Json

def Value.ofJson? (text : String) : Option Value :=
  let text := text.toList
  Json.read? text.length [] text

end TorrentCore
