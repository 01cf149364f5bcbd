import TagScript.Number.Decimal
import TagScript.Text.Blank
import TagScript.Text.Case

/-! Lengths of time in whole nanoseconds: their limits, their written forms, and how scripts write
them. -/

namespace TagScript

structure Duration where
  nanoseconds : Nat
  deriving DecidableEq, Repr, Inhabited

namespace Duration

def nanosPerSecond : Nat := 1000000000

def longest : Duration := ⟨(Nat.pow 2 64 - 1) * nanosPerSecond + 999999999⟩

def zero : Duration := ⟨0⟩

def ofMillis (millis : Nat) : Duration := ⟨millis * 1000000⟩

def tick : Duration := ofMillis 50

def toMillis (duration : Duration) : Nat := duration.nanoseconds / 1000000

def addSaturating (left right : Duration) : Duration :=
  ⟨min (left.nanoseconds + right.nanoseconds) longest.nanoseconds⟩

/-- The period of a speed in ticks. No speed has no period, and a speed beyond 32 bits takes
forever. -/
def ofTicks (ticks : Int) : Duration :=
  if Int.pow 2 32 ≤ ticks then longest else ⟨ticks.toNat * tick.nanoseconds⟩

def trimZeros (digits : List Char) : List Char :=
  (digits.reverse.dropWhile (· == '0')).reverse

def decimalText (whole rest places : Nat) : String :=
  let digits := Nat.toDigits 10 rest
  let fraction := trimZeros (List.replicate (places - digits.length) '0' ++ digits)
  if fraction.isEmpty then toString whole else toString whole ++ "." ++ String.ofList fraction

def text (duration : Duration) : String :=
  let nanos := duration.nanoseconds
  if nanosPerSecond ≤ nanos then
    decimalText (nanos / nanosPerSecond) (nanos % nanosPerSecond) 9 ++ "s"
  else if 1000000 ≤ nanos then decimalText (nanos / 1000000) (nanos % 1000000) 6 ++ "ms"
  else if 1000 ≤ nanos then decimalText (nanos / 1000) (nanos % 1000) 3 ++ "µs"
  else toString nanos ++ "ns"

def ofSeconds? (seconds : Float) : Option Duration :=
  match Number.Binary.ofFloat? seconds with
  | none => none
  | some number =>
    if number.negative && number.mantissa != 0 then none
    else
      let nanos := Number.scaledDiv (number.mantissa * nanosPerSecond) 1 (-number.exponent)
      if nanos ≤ longest.nanoseconds then some ⟨nanos⟩ else none

def secondsOf? (unit : String) (amount : Float) : Option Float :=
  match unit with
  | "t" => some (amount * 0.05)
  | "ms" => some (amount / 1000)
  | "s" => some amount
  | "m" => some (amount * 60)
  | "h" => some (amount * 3600)
  | "d" => some (amount * 86400)
  | _ => none

/-- Reads a length of time such as `5s`, `10t` or `250ms`; a bare number counts seconds. -/
def parse? (text : String) : Option Duration := do
  let chars := (Text.asciiLower (Text.trim text)).toList
  let number := chars.takeWhile fun c => !c.isAlpha
  let letters := chars.dropWhile fun c => !c.isAlpha
  let amount ← Number.float? (Text.trim (String.ofList number))
  if !amount.isFinite || amount < 0 then none
  else
    let seconds ← secondsOf? (if letters.isEmpty then "s" else String.ofList letters) amount
    ofSeconds? seconds

end Duration

end TagScript
