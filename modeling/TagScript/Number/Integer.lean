/-! Whole numbers written in decimal. -/

namespace TagScript.Number

def ofDigits (digits : List Char) : Nat :=
  digits.foldl (fun value digit => 10 * value + (digit.toNat - '0'.toNat)) 0

def digits? (chars : List Char) : Option Nat :=
  if chars.isEmpty || !chars.all Char.isDigit then none else some (ofDigits chars)

def maxCount : Nat := Nat.pow 2 64 - 1

/-- Reads a count of at most 64 bits; a plus sign may stand in front. -/
def count? (text : String) : Option Nat :=
  let digits := match text.toList with
    | '+' :: rest => rest
    | chars => chars
  (digits? digits).filter (· ≤ maxCount)

def fitsSigned (value : Int) : Bool :=
  -Int.pow 2 63 ≤ value && value < Int.pow 2 63

def signed? (text : String) : Option Int :=
  let value := match text.toList with
    | '+' :: rest => (digits? rest).map Int.ofNat
    | '-' :: rest => (digits? rest).map fun size => -Int.ofNat size
    | chars => (digits? chars).map Int.ofNat
  value.filter fitsSigned

end TagScript.Number
