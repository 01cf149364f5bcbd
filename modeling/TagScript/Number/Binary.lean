/-! Binary fractions of double precision as exact pairs of whole numbers. -/

namespace TagScript.Number

/-- A finite value `mantissa * 2 ^ exponent`, with a sign of its own so that zero has two forms. -/
structure Binary where
  negative : Bool
  mantissa : Nat
  exponent : Int

def Binary.ofFloat? (value : Float) : Option Binary :=
  let bits := value.toBits.toNat
  let fraction := bits % Nat.pow 2 52
  let scale := bits / Nat.pow 2 52 % 2048
  let negative := bits / Nat.pow 2 63 == 1
  if scale = 2047 then none
  else if scale = 0 then some ⟨negative, fraction, -1074⟩
  else some ⟨negative, Nat.pow 2 52 + fraction, Int.ofNat scale - 1075⟩

def roundDiv (numerator denominator : Nat) : Nat :=
  let quotient := numerator / denominator
  let twice := 2 * (numerator % denominator)
  if twice < denominator then quotient
  else if denominator < twice then quotient + 1
  else quotient + quotient % 2

def scaledDiv (numerator denominator : Nat) (exponent : Int) : Nat :=
  if 0 ≤ exponent then roundDiv numerator (denominator * Nat.pow 2 exponent.toNat)
  else roundDiv (numerator * Nat.pow 2 (-exponent).toNat) denominator

/-- The bits of the double nearest to a positive fraction. The exponent is chosen so that the
rounded mantissa takes 53 bits, or fewer next to zero. -/
def nearestBits (numerator denominator : Nat) : Nat :=
  let estimate : Int := Int.ofNat numerator.log2 - Int.ofNat denominator.log2 - 53
  let floor (exponent : Int) : Nat :=
    if 0 ≤ exponent then numerator / (denominator * Nat.pow 2 exponent.toNat)
    else numerator * Nat.pow 2 (-exponent).toNat / denominator
  let fitted := if floor estimate < Nat.pow 2 53 then estimate else estimate + 1
  let exponent := max fitted (-1074)
  let mantissa := scaledDiv numerator denominator exponent
  if exponent = -1074 && mantissa < Nat.pow 2 52 then mantissa
  else
    let scale := (exponent + 1075).toNat
    min (scale * Nat.pow 2 52 + (mantissa - Nat.pow 2 52)) (2047 * Nat.pow 2 52)

def nearest (negative : Bool) (numerator denominator : Nat) : Float :=
  let bits := if numerator = 0 then 0 else nearestBits numerator denominator
  Float.ofBits (UInt64.ofNat (if negative then Nat.pow 2 63 + bits else bits))

end TagScript.Number
