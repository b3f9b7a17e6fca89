/-!
# Doubles as exact numbers

A finite double is plus or minus a natural number times a power of two. Everything that is printed
or rounded is computed from that exact value, with natural numbers only.
-/

namespace TorrentCore

/-- The number `± mantissa * 2 ^ exponent`. -/
structure Dyadic where
  negative : Bool
  mantissa : Nat
  exponent : Int
deriving DecidableEq, Repr

namespace Dyadic

/-- The exact value of the double with these bits; infinities and NaN have none. -/
def ofBits? (bits : UInt64) : Option Dyadic :=
  let biased := (bits >>> 52).toNat % 2048
  let fraction := bits.toNat % 4503599627370496
  let negative := bits.toNat ≥ 9223372036854775808
  if biased = 2047 then none
  else if biased = 0 then some ⟨negative, fraction, -1074⟩
  else some ⟨negative, fraction + 4503599627370496, (biased : Int) - 1075⟩

def ofFloat? (x : Float) : Option Dyadic := ofBits? x.toBits

/-- The magnitude as a quotient of natural numbers. -/
def numerator (d : Dyadic) : Nat := d.mantissa * Nat.pow 2 d.exponent.toNat

def denominator (d : Dyadic) : Nat := Nat.pow 2 (-d.exponent).toNat

end Dyadic

/-- The natural number nearest to a quotient; half a unit goes to the even neighbour. -/
def roundHalfEven (numerator denominator : Nat) : Nat :=
  let quotient := numerator / denominator
  let twice := 2 * (numerator % denominator)
  if twice < denominator then quotient
  else if denominator < twice then quotient + 1
  else quotient + quotient % 2

end TorrentCore
