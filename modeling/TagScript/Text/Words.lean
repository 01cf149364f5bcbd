/-! Cutting a line into words. Spaces, tabs and line feeds part words; quotes and backslashes keep
them together; a `#` where a word could start hides the rest of its line. -/

namespace TagScript.Text

inductive WordMode where
  | between
  | comment
  | bare
  | bareEscape
  | single
  | double
  | doubleEscape

def partsWords (c : Char) : Bool :=
  c == ' ' || c == '\t' || c == '\n'

def yieldsToEscape (c : Char) : Bool :=
  c == '$' || c == '\x60' || c == '"' || c == '\\'

/-- Reads on with `word` holding the characters of the unfinished word, last first. An open quote or
a final backslash gives nothing. -/
def wordsFrom : WordMode → List Char → List Char → Option (List String)
  | .between, _, [] => some []
  | .comment, _, [] => some []
  | .bare, word, [] => some [String.ofList word.reverse]
  | .bareEscape, _, [] => none
  | .single, _, [] => none
  | .double, _, [] => none
  | .doubleEscape, _, [] => none
  | .between, word, c :: rest =>
    if partsWords c then wordsFrom .between [] rest
    else match c with
      | '#' => wordsFrom .comment [] rest
      | '"' => wordsFrom .double [] rest
      | '\x27' => wordsFrom .single [] rest
      | '\\' => wordsFrom .bareEscape [] rest
      | _ => wordsFrom .bare (c :: word) rest
  | .comment, _, c :: rest =>
    if c = '\n' then wordsFrom .between [] rest else wordsFrom .comment [] rest
  | .bare, word, c :: rest =>
    if partsWords c then (wordsFrom .between [] rest).map (String.ofList word.reverse :: ·)
    else match c with
      | '"' => wordsFrom .double word rest
      | '\x27' => wordsFrom .single word rest
      | '\\' => wordsFrom .bareEscape word rest
      | _ => wordsFrom .bare (c :: word) rest
  | .bareEscape, word, c :: rest =>
    if c = '\n' then wordsFrom .bare word rest else wordsFrom .bare (c :: word) rest
  | .single, word, c :: rest =>
    if c = '\x27' then wordsFrom .bare word rest else wordsFrom .single (c :: word) rest
  | .double, word, c :: rest =>
    match c with
    | '"' => wordsFrom .bare word rest
    | '\\' => wordsFrom .doubleEscape word rest
    | _ => wordsFrom .double (c :: word) rest
  | .doubleEscape, word, c :: rest =>
    if yieldsToEscape c then wordsFrom .double (c :: word) rest
    else if c = '\n' then wordsFrom .double word rest
    else wordsFrom .double (c :: '\\' :: word) rest

def words? (line : String) : Option (List String) :=
  wordsFrom .between [] line.toList

end TagScript.Text
