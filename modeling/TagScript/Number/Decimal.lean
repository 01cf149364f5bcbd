import TagScript.Number.Binary
import TagScript.Number.Integer

/-! Decimal texts of doubles: any decimal notation is read to the nearest double, and a double is
written with the fewest digits that read back, never with an exponent. -/

namespace TagScript.Number

structure Decimal where
  digits : Nat
  exponent : Int

def spanDigits (chars : List Char) : List Char × List Char :=
  (chars.takeWhile Char.isDigit, chars.dropWhile Char.isDigit)

def exponent? (chars : List Char) : Option Int :=
  match chars with
  | [] => some 0
  | mark :: rest =>
    if mark == 'e' || mark == 'E' then
      match rest with
      | '-' :: digits => (digits? digits).map fun size => -Int.ofNat size
      | '+' :: digits => (digits? digits).map Int.ofNat
      | digits => (digits? digits).map Int.ofNat
    else none

def Decimal.unsigned? (chars : List Char) : Option Decimal :=
  let (whole, rest) := spanDigits chars
  let (fraction, tail) := match rest with
    | '.' :: after => spanDigits after
    | _ => ([], rest)
  if whole.isEmpty && fraction.isEmpty then none
  else (exponent? tail).map fun exponent =>
    ⟨ofDigits (whole ++ fraction), exponent - Int.ofNat fraction.length⟩

def digitCount (value : Nat) : Nat :=
  (Nat.toDigits 10 value).length

def Decimal.toFloat (negative : Bool) (decimal : Decimal) : Float :=
  let size := Int.ofNat (digitCount decimal.digits) + decimal.exponent
  if decimal.digits = 0 || size < -400 then nearest negative 0 1
  else if 400 < size then nearest negative (Nat.pow 2 1100) 1
  else if 0 ≤ decimal.exponent then
    nearest negative (decimal.digits * Nat.pow 10 decimal.exponent.toNat) 1
  else nearest negative decimal.digits (Nat.pow 10 (-decimal.exponent).toNat)

def float? (text : String) : Option Float :=
  let (negative, chars) := match text.toList with
    | '-' :: rest => (true, rest)
    | '+' :: rest => (false, rest)
    | chars => (false, chars)
  match String.ofList (chars.map Char.toLower) with
  | "inf" | "infinity" => some (nearest negative (Nat.pow 2 1100) 1)
  | "nan" => some (Float.ofBits 0x7FF8000000000000)
  | _ => (Decimal.unsigned? chars).map (Decimal.toFloat negative)

def leadingPlace (numerator denominator : Nat) : Nat → Nat
  | 0 => 0
  | places + 1 =>
    if denominator ≤ numerator * 10 then 1
    else 1 + leadingPlace (numerator * 10) denominator places

def leadingExponent (numerator denominator : Nat) : Int :=
  if denominator ≤ numerator then Int.ofNat (digitCount (numerator / denominator)) - 1
  else -Int.ofNat (leadingPlace numerator denominator 400)

/-- The decimals that read back to a double lie between two bounds over a common denominator. -/
structure ReadingInterval where
  low : Nat
  value : Nat
  high : Nat
  denominator : Nat
  inclusive : Bool

def ReadingInterval.ofBinary (number : Binary) : ReadingInterval :=
  let raise := Nat.pow 2 number.exponent.toNat
  let below := if number.mantissa = Nat.pow 2 52 && -1074 < number.exponent then 1 else 2
  { low := (4 * number.mantissa - below) * raise
    value := 4 * number.mantissa * raise
    high := (4 * number.mantissa + 2) * raise
    denominator := 4 * Nat.pow 2 (-number.exponent).toNat
    inclusive := number.mantissa % 2 == 0 }

def Decimal.against (decimal : Decimal) (interval : ReadingInterval) : Nat × Nat :=
  (decimal.digits * Nat.pow 10 decimal.exponent.toNat * interval.denominator,
    Nat.pow 10 (-decimal.exponent).toNat)

def Decimal.readsBack (interval : ReadingInterval) (decimal : Decimal) : Bool :=
  let (numerator, denominator) := decimal.against interval
  if interval.inclusive then
    interval.low * denominator ≤ numerator && numerator ≤ interval.high * denominator
  else interval.low * denominator < numerator && numerator < interval.high * denominator

def onGrid? (interval : ReadingInterval) (exponent : Int) : Option Decimal :=
  let scaled := interval.value * Nat.pow 10 (-exponent).toNat
  let unit := interval.denominator * Nat.pow 10 exponent.toNat
  let lower : Decimal := ⟨scaled / unit, exponent⟩
  let upper : Decimal := ⟨scaled / unit + 1, exponent⟩
  match lower.readsBack interval, upper.readsBack interval with
  | true, true => some (if 2 * (scaled % unit) < unit then lower else upper)
  | true, false => some lower
  | false, true => some upper
  | false, false => none

/-- Tries ever finer grids, starting at `exponent`; seventeen digits always read back. -/
def shortestFrom (interval : ReadingInterval) (exponent : Int) : Nat → Decimal
  | 0 => ⟨interval.value / interval.denominator, 0⟩
  | grids + 1 =>
    match onGrid? interval exponent with
    | some decimal => decimal
    | none => shortestFrom interval (exponent - 1) grids

def Decimal.shortest (number : Binary) : Decimal :=
  let interval := ReadingInterval.ofBinary number
  shortestFrom interval (leadingExponent interval.value interval.denominator + 1) 19

def Decimal.positional (decimal : Decimal) : String :=
  let digits := Nat.toDigits 10 decimal.digits
  if 0 ≤ decimal.exponent then
    String.ofList (digits ++ List.replicate decimal.exponent.toNat '0')
  else
    let places := (-decimal.exponent).toNat
    let padded := List.replicate (places + 1 - digits.length) '0' ++ digits
    let (whole, fraction) := padded.splitAt (padded.length - places)
    String.ofList (whole ++ '.' :: fraction)

/-- The text of a double: fewest digits that read back, no exponent. -/
def shortText (value : Float) : String :=
  match Binary.ofFloat? value with
  | none => if value.isNaN then "NaN" else if value < 0 then "-inf" else "inf"
  | some number =>
    let size := if number.mantissa = 0 then "0" else (Decimal.shortest number).positional
    if number.negative then "-" ++ size else size

def wholeText (value : Float) : String :=
  match Binary.ofFloat? value with
  | none => shortText value
  | some number =>
    let size := toString (scaledDiv number.mantissa 1 (-number.exponent))
    if number.negative then "-" ++ size else size

end TagScript.Number
