/-! Chains: the dot-separated lookups inside one tag. -/

namespace TagScript.Tag

/-- How many square and angle brackets are open. A closing bracket with nothing to close is
ignored. -/
structure Nesting where
  square : Nat
  angle : Nat
  deriving DecidableEq

namespace Nesting

def outside : Nesting := ⟨0, 0⟩

def step (nesting : Nesting) (c : Char) : Nesting :=
  match c with
  | '[' => { nesting with square := nesting.square + 1 }
  | ']' => { nesting with square := nesting.square - 1 }
  | '<' => { nesting with angle := nesting.angle + 1 }
  | '>' => { nesting with angle := nesting.angle - 1 }
  | _ => nesting

def isOutside (nesting : Nesting) : Bool :=
  nesting.square == 0 && nesting.angle == 0

end Nesting

/-- One link of a chain: a key, and the still unfilled text of its bracket if it has one. -/
structure Component where
  key : String
  context : Option String
  deriving DecidableEq, Repr, Inhabited

/-- A tag body cut into its components. -/
structure Chain where
  raw : String
  components : List Component
  deriving DecidableEq, Repr, Inhabited

def ontoFirst (c : Char) : List (List Char) → List (List Char)
  | [] => [[c]]
  | segment :: segments => (c :: segment) :: segments

def startsWithDigit (chars : List Char) : Bool :=
  chars.head?.any Char.isDigit

/-- Cuts a body at its dots. A dot counts unless it stands in brackets or between two digits. -/
def segmentsFrom (afterDigit : Bool) (nesting : Nesting) : List Char → List (List Char)
  | [] => [[]]
  | c :: rest =>
    if c = '.' && nesting.isOutside && !(afterDigit && startsWithDigit rest) then
      [] :: segmentsFrom false nesting rest
    else ontoFirst c (segmentsFrom c.isDigit (nesting.step c) rest)

def segments (body : List Char) : List (List Char) :=
  segmentsFrom false .outside body

def cutAtBracket (angle : Nat) : List Char → Option (List Char × List Char)
  | [] => none
  | c :: rest =>
    if c = '[' && angle == 0 then some ([], rest)
    else
      let angle := match c with
        | '<' => angle + 1
        | '>' => angle - 1
        | _ => angle
      (cutAtBracket angle rest).map fun (key, inner) => (c :: key, inner)

def closeBracket (depth : Nat) : List Char → Option (List Char × List Char)
  | [] => none
  | c :: rest =>
    if c = ']' && depth == 0 then some ([], rest)
    else
      let depth := match c with
        | '[' => depth + 1
        | ']' => depth - 1
        | _ => depth
      (closeBracket depth rest).map fun (inner, after) => (c :: inner, after)

/-- Reads `key[context]`. A segment whose bracket does not close at its very end is all key. -/
def Component.ofSegment (segment : List Char) : Component :=
  match cutAtBracket 0 segment with
  | none => ⟨String.ofList segment, none⟩
  | some (key, inner) =>
    match closeBracket 0 inner with
    | some (context, []) => ⟨String.ofList key, some (String.ofList context)⟩
    | _ => ⟨String.ofList segment, none⟩

/-- Reads a tag body. Every body is a chain, and every chain has a component. -/
def Chain.parse (body : String) : Chain :=
  ⟨body, (segments body.toList).map Component.ofSegment⟩

def cutFallbackFrom (nesting : Nesting) : List Char → List Char × Option (List Char)
  | [] => ([], none)
  | [c] => ([c], none)
  | c :: d :: rest =>
    if c = '|' && d = '|' && nesting.isOutside then ([], some rest)
    else
      let (lookup, fallback) := cutFallbackFrom (nesting.step c) (d :: rest)
      (c :: lookup, fallback)

/-- The lookup of a tag body and the fallback behind it. -/
def cutFallback (body : String) : String × Option String :=
  let (lookup, fallback) := cutFallbackFrom .outside body.toList
  (String.ofList lookup, fallback.map String.ofList)

def hasOuterTagFrom (square : Nat) : List Char → Bool
  | [] => false
  | c :: rest =>
    match c with
    | '[' => hasOuterTagFrom (square + 1) rest
    | ']' => hasOuterTagFrom (square - 1) rest
    | '<' => square == 0 || hasOuterTagFrom square rest
    | _ => hasOuterTagFrom square rest

/-- Whether a `<` stands outside every square bracket. -/
def hasOuterTag (body : String) : Bool :=
  hasOuterTagFrom 0 body.toList

end TagScript.Tag
