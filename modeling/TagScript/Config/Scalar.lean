import TagScript.Number.Integer
import TagScript.Text.Cut

/-! Single values of a configuration document in the TOML notation: numbers, booleans and moments of
time. -/

namespace TagScript.Config

inductive Value where
  | text
  | integer (value : Int)
  | fraction
  | boolean (value : Bool)
  | moment
  | list
  | table
  deriving DecidableEq, Repr

def hexDigit? (c : Char) : Option Nat :=
  if c.isDigit then some (c.toNat - '0'.toNat)
  else if 'a' ≤ c && c ≤ 'f' then some (c.toNat - 'a'.toNat + 10)
  else if 'A' ≤ c && c ≤ 'F' then some (c.toNat - 'A'.toNat + 10)
  else none

def digit? (base : Nat) (c : Char) : Option Nat := (hexDigit? c).filter (· < base)

def digitGroups? (base : Nat) (chars : List Char) : Option Nat := do
  let groups := Text.cutAll '_' chars
  if groups.any List.isEmpty then none
  else
    let digits ← groups.flatten.mapM (digit? base)
    return digits.foldl (fun value digit => base * value + digit) 0

def decimal? (chars : List Char) : Option Nat :=
  match chars with
  | '0' :: _ :: _ => none
  | _ => digitGroups? 10 chars

def signed (chars : List Char) : Bool × List Char :=
  match chars with
  | '-' :: rest => (true, rest)
  | '+' :: rest => (false, rest)
  | _ => (false, chars)

def fits (value : Int) : Bool := -Int.pow 2 127 ≤ value && value < Int.pow 2 128

def integer? (chars : List Char) : Option Int :=
  let value := match chars with
    | '0' :: 'x' :: rest => (digitGroups? 16 rest).map Int.ofNat
    | '0' :: 'o' :: rest => (digitGroups? 8 rest).map Int.ofNat
    | '0' :: 'b' :: rest => (digitGroups? 2 rest).map Int.ofNat
    | _ =>
      let (negative, rest) := signed chars
      (decimal? rest).map fun size => if negative then -Int.ofNat size else Int.ofNat size
  value.filter fits

def cutExponent (chars : List Char) : List Char × Option (List Char) :=
  match chars.span fun c => c != 'e' && c != 'E' with
  | (front, _ :: exponent) => (front, some exponent)
  | (front, []) => (front, none)

def isFraction (chars : List Char) : Bool :=
  let (_, size) := signed chars
  if size = ['i', 'n', 'f'] || size = ['n', 'a', 'n'] then true
  else
    let (number, exponent) := cutExponent size
    let exponentFits := match exponent with
      | some digits => (digitGroups? 10 (signed digits).2).isSome
      | none => true
    match Text.cutOnce '.' number with
    | some (whole, fraction) =>
      exponentFits && (decimal? whole).isSome && (digitGroups? 10 fraction).isSome
    | none => exponent.isSome && exponentFits && (decimal? number).isSome

def isNumberIn (count low high : Nat) (chars : List Char) : Bool :=
  chars.length == count && (Number.digits? chars).any fun value => low ≤ value && value ≤ high

def isLeapYear (year : Nat) : Bool := year % 4 == 0 && (year % 100 != 0 || year % 400 == 0)

def daysIn (year month : Nat) : Nat :=
  if month = 2 then (if isLeapYear year then 29 else 28)
  else if month = 4 || month = 6 || month = 9 || month = 11 then 30
  else 31

def isDate (chars : List Char) : Bool :=
  match Text.cutAll '-' chars with
  | [year, month, day] =>
    isNumberIn 4 0 9999 year && isNumberIn 2 1 12 month
      && isNumberIn 2 1 (daysIn (Number.ofDigits year) (Number.ofDigits month)) day
  | _ => false

def isTime (chars : List Char) : Bool :=
  match Text.cutAll ':' chars with
  | [hour, minute, second] =>
    let (whole, fractionFits) := match Text.cutOnce '.' second with
      | some (whole, fraction) => (whole, (Number.digits? fraction).isSome)
      | none => (second, true)
    isNumberIn 2 0 23 hour && isNumberIn 2 0 59 minute && isNumberIn 2 0 60 whole && fractionFits
  | _ => false

def isOffset (chars : List Char) : Bool :=
  match Text.cutAll ':' chars with
  | [hour, minute] => isNumberIn 2 0 23 hour && isNumberIn 2 0 59 minute
  | _ => false

def isTimeWithOffset (chars : List Char) : Bool :=
  match chars.reverse with
  | 'Z' :: front => isTime front.reverse
  | 'z' :: front => isTime front.reverse
  | _ =>
    match chars.span fun c => c != '+' && c != '-' with
    | (time, _ :: offset) => isTime time && isOffset offset
    | (time, []) => isTime time

def isMoment (chars : List Char) : Bool :=
  if isTime chars || isDate chars then true
  else
    let (date, rest) := chars.splitAt 10
    match rest with
    | mark :: time => isDate date && (mark == 'T' || mark == 't' || mark == ' ') && isTimeWithOffset time
    | [] => false

/-- What a word that is not quoted means. -/
def scalar? (chars : List Char) : Option Value :=
  if chars = "true".toList then some (.boolean true)
  else if chars = "false".toList then some (.boolean false)
  else match integer? chars with
    | some value => some (.integer value)
    | none =>
      if isFraction chars then some .fraction
      else if isMoment chars then some .moment
      else none

end TagScript.Config
