import TorrentCore.Text.Quoted

/-!
# Network addresses

An address is an IPv4 or IPv6 host and a port, written `a.b.c.d:port` or `[groups]:port`. IPv6
groups are written as RFC 5952 has it: the longest run of at least two zero groups, the first of
several, is left out.
-/

namespace TorrentCore

inductive Host where
  | v4 (octets : List UInt8)
  /-- Eight groups, and the zone of a link-local address or zero. -/
  | v6 (groups : List UInt16) (zone : UInt32)
deriving DecidableEq, Repr, Inhabited

structure Address where
  host : Host
  port : UInt16
deriving DecidableEq, Repr, Inhabited

namespace Address

/-- A reader takes its value from the front of a text and gives the rest. -/
abbrev Reader (α : Type) := List Char → Option (α × List Char)

def readChar (c : Char) : Reader Unit
  | d :: rest => if c = d then some ((), rest) else none
  | [] => none

def digit? (radix : Nat) (c : Char) : Option Nat :=
  match Bytes.hexValue? (UInt8.ofNat c.toNat) with
  | some v => if c.toNat < 128 ∧ v.toNat < radix then some v.toNat else none
  | none => none

def digits (radix : Nat) : List Char → List Nat × List Char
  | [] => ([], [])
  | c :: rest => match digit? radix c with
    | some v => let (ds, rest) := digits radix rest; (v :: ds, rest)
    | none => ([], c :: rest)

def readNumber (radix maxDigits limit : Nat) (leadingZero : Bool) : Reader Nat := fun text =>
  let (ds, rest) := digits radix text
  let value := ds.foldl (fun n d => n * radix + d) 0
  if ds.isEmpty || maxDigits < ds.length || limit < value then none
  else if !leadingZero && ds.headD 0 == 0 && 1 < ds.length then none
  else some (value, rest)

def readPart {α : Type} (separator : Char) (first : Bool) (part : Reader α) : Reader α :=
  fun text =>
    if first then part text
    else match readChar separator text with
      | some ((), rest) => part rest
      | none => none

def readOctet (first : Bool) : Reader Nat := readPart '.' first (readNumber 10 3 255 false)

def readV4 : Reader (List UInt8) := fun text => do
  let (a, text) ← readOctet true text
  let (b, text) ← readOctet false text
  let (c, text) ← readOctet false text
  let (d, text) ← readOctet false text
  pure ([a, b, c, d].map UInt8.ofNat, text)

/-- Reads at most `limit` groups. Four octets may stand for the last two of them; the flag tells
whether they do. -/
def readGroups : Nat → Bool → List Char → List UInt16 × Bool × List Char
  | 0, _, text => ([], false, text)
  | limit + 1, first, text =>
    let embedded := if 0 < limit then readPart ':' first readV4 text else none
    match embedded with
    | some (octets, rest) =>
      let o := octets.map UInt8.toUInt16
      ([o.getD 0 0 * 256 + o.getD 1 0, o.getD 2 0 * 256 + o.getD 3 0], true, rest)
    | none => match readPart ':' first (readNumber 16 4 65535 true) text with
      | some (group, rest) =>
        let (groups, octets, rest) := readGroups limit false rest
        (UInt16.ofNat group :: groups, octets, rest)
      | none => ([], false, text)

/-- Reads eight groups, some of which `::` may stand for. -/
def readV6 : Reader (List UInt16) := fun text =>
  let (head, octets, rest) := readGroups 8 true text
  if head.length = 8 then some (head, rest)
  else if octets then none
  else do
    let ((), rest) ← readChar ':' rest
    let ((), rest) ← readChar ':' rest
    let (tail, _, rest) := readGroups (7 - head.length) true rest
    pure (head ++ List.replicate (8 - head.length - tail.length) 0 ++ tail, rest)

def readPort : Reader Nat := fun text => do
  let ((), text) ← readChar ':' text
  readNumber 10 (text.length + 1) 65535 true text

def readHostV6 : Reader Host := fun text => do
  let ((), text) ← readChar '[' text
  let (groups, text) ← readV6 text
  let (zone, text) ← match readChar '%' text with
    | some ((), rest) => readNumber 10 (rest.length + 1) 4294967295 true rest
    | none => some (0, text)
  let ((), text) ← readChar ']' text
  pure (.v6 groups (UInt32.ofNat zone), text)

def parse? (text : String) : Option Address := do
  let chars := text.toList
  let (host, rest) ← match readV4 chars with
    | some (octets, rest) => some (Host.v4 octets, rest)
    | none => readHostV6 chars
  let (port, rest) ← readPort rest
  if rest.isEmpty then some ⟨host, UInt16.ofNat port⟩ else none

/-- Where the longest run of zero groups begins, and its length. `position` is that of the first
group, `run` the number of zero groups right before it. -/
def longestZeros : List UInt16 → Nat → Nat → Nat × Nat → Nat × Nat
  | [], _, _, best => best
  | g :: rest, position, run, best =>
    if g = 0 then
      let run := run + 1
      let best := if best.2 < run then (position + 1 - run, run) else best
      longestZeros rest (position + 1) run best
    else longestZeros rest (position + 1) 0 best

def groupsText (groups : List UInt16) : String :=
  ":".intercalate (groups.map fun g => Text.hexNumber g.toNat)

def octetsText (octets : List UInt8) : String := ".".intercalate (octets.map toString)

/-- The groups of an IPv6 host. An embedded IPv4 host is written in octets. -/
def v6Text (groups : List UInt16) : String :=
  if groups.take 6 = [0, 0, 0, 0, 0, 0xffff] then
    let last := groups.drop 6
    "::ffff:" ++ octetsText (last.flatMap fun (g : UInt16) => [(g >>> 8).toUInt8, g.toUInt8])
  else
    let (start, length) := longestZeros groups 0 0 (0, 0)
    if 1 < length then
      groupsText (groups.take start) ++ "::" ++ groupsText (groups.drop (start + length))
    else groupsText groups

def text (a : Address) : String :=
  let host := match a.host with
    | .v4 octets => octetsText octets
    | .v6 groups zone =>
      "[" ++ v6Text groups ++ (if zone = 0 then "" else "%" ++ toString zone) ++ "]"
  host ++ ":" ++ toString a.port

end Address

end TorrentCore
