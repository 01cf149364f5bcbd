import TagScript.Text.Case.Table

/-! Lower and upper case of whole texts. Names are compared in lower case; keywords are compared by
ASCII letters alone. -/

namespace TagScript.Text

def caseShift (runs : List CaseRun) (code : Nat) : Int :=
  match runs.find? fun run =>
      run.first ≤ code && code ≤ run.last && (code - run.first) % run.step == 0 with
  | some run => run.shift
  | none => 0

def inRanges (ranges : List (Nat × Nat)) (code : Nat) : Bool :=
  ranges.any fun (first, last) => first ≤ code && code ≤ last

def isCased (c : Char) : Bool :=
  if c.toNat < 0x80 then c.isAlpha else inRanges casedRanges c.toNat

def isCaseIgnorable (c : Char) : Bool :=
  if c.toNat < 0x80 then c == '\x27' || c == '.' || c == ':' || c == '^' || c == '\x60'
  else inRanges caseIgnorableRanges c.toNat

def lowerChar (c : Char) : List Char :=
  if c.toNat < 0x80 then [c.toLower]
  else if c == 'İ' then ['i', '\u0307']
  else [Char.ofNat (c.toNat + caseShift lowerRuns c.toNat).toNat]

def upperChar (c : Char) : List Char :=
  if c.toNat < 0x80 then [c.toUpper]
  else match upperExpansions.lookup c.toNat with
    | some codes => codes.map Char.ofNat
    | none => [Char.ofNat (c.toNat + caseShift upperRuns c.toNat).toNat]

def meetsCased (chars : List Char) : Bool :=
  match chars.dropWhile isCaseIgnorable with
  | c :: _ => isCased c
  | [] => false

/-- Lower case from left to right; `before` holds the characters already passed, last first. A sigma
that ends a word takes its final form. -/
def lowerFrom (before : List Char) : List Char → List Char
  | [] => []
  | c :: rest =>
    let lowered :=
      if c == 'Σ' then [if meetsCased before && !meetsCased rest then 'ς' else 'σ'] else lowerChar c
    lowered ++ lowerFrom (c :: before) rest

def lower (text : String) : String :=
  String.ofList (lowerFrom [] text.toList)

def upper (text : String) : String :=
  String.ofList (text.toList.flatMap upperChar)

def asciiLower (text : String) : String :=
  String.ofList (text.toList.map Char.toLower)

def sameWord (left right : String) : Bool :=
  asciiLower left == asciiLower right

end TagScript.Text
