import TagScript.Config.Tree

/-! Reading configuration documents in the TOML notation. -/

namespace TagScript.Config

abbrev Reads (α : Type) := List Char → Option (α × List Char)

def isSpace (c : Char) : Bool := c == ' ' || c == '\t'

def skipSpaces (chars : List Char) : List Char := chars.dropWhile isSpace

def isPlain (c : Char) : Bool := c == '\t' || (0x20 ≤ c.toNat && c.toNat != 0x7F)

def afterBreak? (chars : List Char) : Option (List Char) :=
  match chars with
  | '\n' :: rest => some rest
  | '\r' :: '\n' :: rest => some rest
  | _ => none

def afterComment (chars : List Char) : List Char :=
  match chars with
  | '#' :: rest => rest.dropWhile isPlain
  | _ => chars

def endOfLine? (chars : List Char) : Option (List Char) :=
  match afterComment (skipSpaces chars) with
  | [] => some []
  | rest => afterBreak? rest

def skipLines : Nat → List Char → List Char
  | 0, chars => chars
  | lines + 1, chars =>
    let rest := afterComment (skipSpaces chars)
    match afterBreak? rest with
    | some rest => skipLines lines rest
    | none => rest

def charOfHex? (digits : List Char) : Option Char := do
  let code := (← digits.mapM hexDigit?).foldl (fun code digit => 16 * code + digit) 0
  if code < 0xD800 || (0xDFFF < code && code < 0x110000) then some (Char.ofNat code) else none

def escaped? (letter : Char) : Option Char :=
  match letter with
  | 'b' => some '\x08'
  | 't' => some '\t'
  | 'n' => some '\n'
  | 'f' => some '\x0c'
  | 'r' => some '\r'
  | '"' => some '"'
  | '\\' => some '\\'
  | _ => none

def quoted? : Reads (List Char)
  | [] => none
  | '"' :: rest => some ([], rest)
  | '\\' :: 'u' :: a :: b :: c :: d :: rest => do
    let char ← charOfHex? [a, b, c, d]
    let (text, rest) ← quoted? rest
    return (char :: text, rest)
  | '\\' :: 'U' :: a :: b :: c :: d :: e :: f :: g :: h :: rest => do
    let char ← charOfHex? [a, b, c, d, e, f, g, h]
    let (text, rest) ← quoted? rest
    return (char :: text, rest)
  | '\\' :: letter :: rest => do
    let char ← escaped? letter
    let (text, rest) ← quoted? rest
    return (char :: text, rest)
  | c :: rest =>
    if c != '\\' && isPlain c then do
      let (text, rest) ← quoted? rest
      return (c :: text, rest)
    else none

def literal? : Reads (List Char)
  | [] => none
  | c :: rest =>
    if c = '\x27' then some ([], rest)
    else if isPlain c then do
      let (text, rest) ← literal? rest
      return (c :: text, rest)
    else none

def afterQuotes (quote : Char) (chars : List Char) : List Char :=
  match chars with
  | a :: b :: rest => if a = quote then (if b = quote then rest else b :: rest) else chars
  | [a] => if a = quote then [] else chars
  | [] => []

def afterQuotedLines? : List Char → Option (List Char)
  | [] => none
  | '"' :: '"' :: '"' :: rest => some (afterQuotes '"' rest)
  | '\\' :: 'u' :: a :: b :: c :: d :: rest => do
    let _ ← charOfHex? [a, b, c, d]
    afterQuotedLines? rest
  | '\\' :: 'U' :: a :: b :: c :: d :: e :: f :: g :: h :: rest => do
    let _ ← charOfHex? [a, b, c, d, e, f, g, h]
    afterQuotedLines? rest
  | '\\' :: letter :: rest =>
    if (escaped? letter).isSome || (afterBreak? (skipSpaces (letter :: rest))).isSome then
      if letter = '\r' then afterQuotedLines? rest.tail else afterQuotedLines? rest
    else none
  | '\r' :: '\n' :: rest => afterQuotedLines? rest
  | c :: rest =>
    if c != '\\' && (isPlain c || c == '\n') then afterQuotedLines? rest else none
termination_by chars => chars.length
decreasing_by
  all_goals simp_wf
  all_goals omega

def afterLiteralLines? : List Char → Option (List Char)
  | [] => none
  | '\x27' :: '\x27' :: '\x27' :: rest => some (afterQuotes '\x27' rest)
  | '\r' :: '\n' :: rest => afterLiteralLines? rest
  | c :: rest => if isPlain c || c == '\n' then afterLiteralLines? rest else none

def isBareKey (c : Char) : Bool := c.isAlphanum || c == '_' || c == '-'

def simpleKey? : Reads String := fun chars =>
  match chars with
  | '"' :: rest => (quoted? rest).map fun (key, rest) => (String.ofList key, rest)
  | '\x27' :: rest => (literal? rest).map fun (key, rest) => (String.ofList key, rest)
  | _ =>
    let key := chars.takeWhile isBareKey
    if key.isEmpty then none else some (String.ofList key, chars.dropWhile isBareKey)

def dottedKey? : Nat → Reads (List String)
  | 0, _ => none
  | parts + 1, chars => do
    let (key, rest) ← simpleKey? (skipSpaces chars)
    match skipSpaces rest with
    | '.' :: more =>
      let (keys, rest) ← dottedKey? parts more
      return (key :: keys, rest)
    | rest => return ([key], rest)

def endsWord (c : Char) : Bool :=
  c == ',' || c == ']' || c == '\x7d' || isSpace c || c == '\n' || c == '\r' || c == '#'

def scalarHere? : Reads Value := fun chars =>
  let word := chars.takeWhile (!endsWord ·)
  let rest := chars.dropWhile (!endsWord ·)
  let time := rest.tail.takeWhile (!endsWord ·)
  if isDate word && rest.head? == some ' ' && time.head?.any Char.isDigit then
    (scalar? (word ++ ' ' :: time)).map fun value => (value, rest.tail.dropWhile (!endsWord ·))
  else (scalar? word).map fun value => (value, rest)

mutual

def value? : Nat → Reads Value
  | 0, _ => none
  | depth + 1, chars =>
    match chars with
    | '"' :: '"' :: '"' :: rest => (afterQuotedLines? rest).map fun rest => (.text, rest)
    | '\x27' :: '\x27' :: '\x27' :: rest => (afterLiteralLines? rest).map fun rest => (.text, rest)
    | '"' :: rest => (quoted? rest).map fun (_, rest) => (.text, rest)
    | '\x27' :: rest => (literal? rest).map fun (_, rest) => (.text, rest)
    | '[' :: rest => (afterItems? depth rest).map fun rest => (.list, rest)
    | '{' :: rest =>
      match skipSpaces rest with
      | '}' :: rest => some (.table, rest)
      | rest => (afterPairs? depth [] rest).map fun rest => (.table, rest)
    | _ => scalarHere? chars

def afterItems? : Nat → List Char → Option (List Char)
  | 0, _ => none
  | depth + 1, chars =>
    match skipLines chars.length chars with
    | ']' :: rest => some rest
    | chars => do
      let (_, rest) ← value? depth chars
      match skipLines rest.length rest with
      | ']' :: rest => some rest
      | ',' :: rest => afterItems? depth rest
      | _ => none

def afterPairs? : Nat → Members → List Char → Option (List Char)
  | 0, _, _ => none
  | depth + 1, members, chars => do
    let (keys, rest) ← dottedKey? chars.length chars
    match rest with
    | '=' :: rest =>
      let (value, rest) ← value? depth (skipSpaces rest)
      let members ← members.assign value keys
      match skipSpaces rest with
      | '}' :: rest => some rest
      | ',' :: rest => afterPairs? depth members rest
      | _ => none
    | _ => none

end

structure DocumentReader where
  members : Members
  path : List String

namespace DocumentReader

def header? (reader : DocumentReader) (chars : List Char) :
    Option (DocumentReader × List Char) := do
  match chars with
  | '[' :: '[' :: rest =>
    let (path, rest) ← dottedKey? rest.length rest
    match rest with
    | ']' :: ']' :: rest => return (⟨← reader.members.openNext path, path⟩, rest)
    | _ => none
  | '[' :: rest =>
    let (path, rest) ← dottedKey? rest.length rest
    match rest with
    | ']' :: rest => return (⟨← reader.members.openTable path, path⟩, rest)
    | _ => none
  | _ => none

def pair? (reader : DocumentReader) (chars : List Char) :
    Option (DocumentReader × List Char) := do
  let (keys, rest) ← dottedKey? chars.length chars
  match rest with
  | '=' :: rest =>
    let (value, rest) ← value? (rest.length + 1) (skipSpaces rest)
    let members ← reader.members.inside (Members.assign value keys) reader.path
    return ({ reader with members }, rest)
  | _ => none

def finish? (reader : DocumentReader) : Nat → List Char → Option Members
  | 0, _ => none
  | lines + 1, chars =>
    match skipLines chars.length chars with
    | [] => some reader.members
    | rest => do
      let (reader, rest) ←
        if rest.head? == some '[' then reader.header? rest else reader.pair? rest
      finish? reader lines (← endOfLine? rest)

end DocumentReader

/-- Reads a document. -/
def document? (text : String) : Option Members :=
  let chars := match text.toList with
    | '\ufeff' :: rest => rest
    | chars => chars
  DocumentReader.finish? ⟨[], []⟩ (chars.length + 1) chars

end TagScript.Config
