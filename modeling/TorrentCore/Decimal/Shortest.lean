import TorrentCore.Decimal.Dyadic

/-!
# The shortest decimal text of a double

A double is written with the fewest digits that read back as the same double; of two such numbers
the nearer is taken, or the even one if neither is nearer. The text is positional, with a decimal
point in any case, or has an exponent behind it, with a sign in any case; which of the two depends
on the magnitude.
-/

namespace TorrentCore.Decimal

/-- The numbers that round to a given double lie between two quotients over one denominator. The
ends belong to them when `closed`. -/
structure Reach where
  low : Nat
  value : Nat
  high : Nat
  denominator : Nat
  closed : Bool

/-- The numbers that round to a positive double. Below a power of two the gap is half as wide. -/
def Reach.ofDyadic (d : Dyadic) : Reach :=
  let value := 4 * d.numerator
  let gap := 2 * Nat.pow 2 d.exponent.toNat
  let narrow := d.mantissa = 4503599627370496 ∧ -1074 < d.exponent
  { low := value - (if narrow then gap / 2 else gap)
    value := value
    high := value + gap
    denominator := 4 * d.denominator
    closed := d.mantissa % 2 == 0 }

/-- Whether `digits * 10 ^ shift` is among the numbers. -/
def Reach.holds (r : Reach) (digits : Nat) (shift : Int) : Bool :=
  let left := digits * Nat.pow 10 shift.toNat * r.denominator
  let scale := Nat.pow 10 (-shift).toNat
  if r.closed then r.low * scale ≤ left && left ≤ r.high * scale
  else r.low * scale < left && left < r.high * scale

/-- The multiple of `10 ^ shift` at or below the value, in units. -/
def Reach.floorUnits (r : Reach) (shift : Int) : Nat :=
  r.value * Nat.pow 10 (-shift).toNat / (r.denominator * Nat.pow 10 shift.toNat)

/-- Whether the value, of which `n` units are the whole part, is rounded to `n + 1` units: the
nearer of the two numbers is taken, and halfway between them the even one. -/
def Reach.roundsUp (r : Reach) (n : Nat) (shift : Int) : Bool :=
  let middle := (2 * n + 1) * (r.denominator * Nat.pow 10 shift.toNat)
  let twice := 2 * (r.value * Nat.pow 10 (-shift).toNat)
  middle < twice || (middle == twice && n % 2 == 1)

/-- Tries coarser grids first. `shift` is the exponent of the grid's unit. -/
def Reach.shortest (r : Reach) (fuel : Nat) (shift : Int) : Nat × Int :=
  match fuel with
  | 0 => (r.floorUnits shift, shift)
  | fuel + 1 =>
    let n := r.floorUnits shift
    match r.holds n shift, r.holds (n + 1) shift with
    | true, true => (if r.roundsUp n shift then n + 1 else n, shift)
    | true, false => (n, shift)
    | false, true => (n + 1, shift)
    | false, false => r.shortest fuel (shift - 1)

def positional (digits : Nat) (shift : Int) : String :=
  if 0 ≤ shift then toString (digits * Nat.pow 10 shift.toNat) ++ ".0"
  else
    let places := (-shift).toNat
    let fraction := (Nat.toDigits 10 (digits % Nat.pow 10 places))
    toString (digits / Nat.pow 10 places) ++ "."
      ++ String.ofList (List.replicate (places - fraction.length) '0' ++ fraction)

def scientific (digits : Nat) (shift : Int) : String :=
  let text := Nat.toDigits 10 digits
  let exponent := shift + (text.length - 1 : Nat)
  String.ofList (text.take 1)
    ++ (if text.length = 1 then "" else "." ++ String.ofList (text.drop 1))
    ++ (if exponent < 0 then "e-" else "e+") ++ toString exponent.natAbs

/-- Which numbers are written positionally: those whose first digit counts for a power of ten
between two ends. -/
structure PositionalRange where
  lowest : Int
  highest : Int
deriving DecidableEq, Repr

def shortestText (range : PositionalRange) (x : Float) : String :=
  match Dyadic.ofFloat? x with
  | none => if x.isNaN then "NaN" else if 0 < x then "inf" else "-inf"
  | some d =>
    let magnitude :=
      if d.mantissa = 0 then "0.0"
      else
        let (digits, shift) := (Reach.ofDyadic d).shortest 700 310
        let first := shift + ((Nat.toDigits 10 digits).length - 1 : Nat)
        if range.lowest ≤ first ∧ first ≤ range.highest then positional digits shift
        else scientific digits shift
    (if d.negative then "-" else "") ++ magnitude

end TorrentCore.Decimal
