/-!
# Decimal numerals

A numeral is taken apart into its digits first. One without a point and without an exponent stands
for an integer if that fits 64 bits, of which a sign takes one. Every other numeral stands for a
double: of its digits as many are used as fit a 64-bit word, and the word, rounded to a double, is
multiplied or divided by a rounded power of ten. So long numerals may be read as a neighbour of the
nearest double.
-/

namespace TorrentCore

/-- A number as it is written. -/
structure Numeral where
  negative : Bool
  /-- The digits before the point, without leading zeros. -/
  whole : List Nat
  /-- The digits behind the point. -/
  fraction : List Nat
  exponent : Option Int
deriving DecidableEq, Repr

namespace Numeral

/-! ## Reading -/

def digits (text : List Char) : List Nat × List Char :=
  let (front, rest) := text.span Char.isDigit
  (front.map fun c => c.toNat - '0'.toNat, rest)

/-- The digits before the point. There is at least one, and none stands behind a leading zero. -/
def whole? (text : List Char) : Option (List Nat × List Char) :=
  match digits text with
  | ([], _) | (0 :: _ :: _, _) => none
  | found => some found

def fraction? : List Char → Option (List Nat × List Char)
  | '.' :: rest => match digits rest with
    | ([], _) => none
    | found => some found
  | text => some ([], text)

def ofDigits (digits : List Nat) : Nat := digits.foldl (fun n d => 10 * n + d) 0

def exponentDigits? (negative : Bool) (text : List Char) : Option (Option Int × List Char) :=
  match digits text with
  | ([], _) => none
  | (found, rest) =>
    let n : Int := ofDigits found
    some (some (if negative then -n else n), rest)

def exponent? : List Char → Option (Option Int × List Char)
  | c :: rest =>
    if c = 'e' || c = 'E' then
      match rest with
      | '-' :: rest => exponentDigits? true rest
      | '+' :: rest => exponentDigits? false rest
      | rest => exponentDigits? false rest
    else some (none, c :: rest)
  | [] => some (none, [])

def read? (text : List Char) : Option (Numeral × List Char) := do
  let (negative, text) := match text with
    | '-' :: rest => (true, rest)
    | text => (false, text)
  let (whole, text) ← whole? text
  let (fraction, text) ← fraction? text
  let (exponent, text) ← exponent? text
  pure (⟨negative, whole, fraction, exponent⟩, text)

/-! ## Value -/

/-- Appends digits to a 64-bit word while they fit. Gives the word and the digits that are left. -/
def fill (word : Nat) : List Nat → Nat × List Nat
  | [] => (word, [])
  | d :: rest =>
    if 10 * word + d < 18446744073709551616 then fill (10 * word + d) rest else (word, d :: rest)

/-- The integer that a numeral stands for. Minus zero is none. -/
def integer? (n : Numeral) : Option Int :=
  match fill 0 n.whole, n.fraction, n.exponent with
  | (word, []), [], none =>
    if !n.negative then some word
    else if 0 < word ∧ word ≤ 9223372036854775808 then some (-word)
    else none
  | _, _, _ => none

def powerOfTen (k : Nat) : Float := Float.ofScientific 1 false k

/-- The double for `word * 10 ^ exponent`, unless that is too large. -/
def scale? (word : Nat) (exponent : Int) : Option Float :=
  let x := word.toFloat
  if 308 < exponent then if word = 0 then some x else none
  else if 0 ≤ exponent then
    let y := x * powerOfTen exponent.toNat
    if y.isInf then none else some y
  else if -308 ≤ exponent then some (x / powerOfTen (-exponent).toNat)
  else if -616 ≤ exponent then some (x / powerOfTen 308 / powerOfTen (-exponent - 308).toNat)
  else some 0

/-- The double that a numeral stands for, unless that is too large. Digits before the point that do
not fit count for the magnitude, digits behind the point that do not fit for nothing. -/
def real? (n : Numeral) : Option Float :=
  let (word, wholeLeft) := fill 0 n.whole
  let (word, fractionLeft) := fill word n.fraction
  let places : Int := n.fraction.length - fractionLeft.length
  let exponent := wholeLeft.length - places + n.exponent.getD 0
  (scale? word exponent).map fun x => if n.negative then -x else x

end Numeral

end TorrentCore
