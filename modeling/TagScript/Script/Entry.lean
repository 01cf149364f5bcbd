import TagScript.Text.Blank
import TagScript.Text.Cut
import TagScript.Text.Words

/-! Entries: single command lines of a script, before and after their arguments are filled. -/

namespace TagScript

/-- Names one firing of a script; determinations are filed under it. -/
structure FireId where
  number : Nat
  deriving DecidableEq, Repr, Inhabited, Hashable

inductive EntryError where
  | unreadable (line : String)
  | empty
  deriving DecidableEq, Repr

def EntryError.message : EntryError → String
  | .unreadable line => s!"Line could not be tokenised (unbalanced quotes?): {line}"
  | .empty => "Line contains no command."

structure Entry where
  command : String
  arguments : List String
  waits : Bool
  script : Option String := none
  fire : Option FireId := none
  deriving DecidableEq, Repr, Inhabited

/-- What is known of an argument before it is filled. -/
structure Template where
  raw : String
  /-- How many braces are open around the argument; a brace counts those around it. -/
  depth : Nat
  hasTags : Bool
  hasDefinitions : Bool
  deriving DecidableEq, Repr

def openBrace : String := "\x7b"

def closeBrace : String := "\x7d"

namespace Template

def ofArgument (depth : Nat) (argument : String) : Template :=
  { raw := argument
    depth
    hasTags := argument.toList.contains '<'
    hasDefinitions := 2 ≤ argument.toList.count '%' }

def listFrom (depth : Nat) : List String → List Template
  | [] => []
  | argument :: rest =>
    if argument = closeBrace then ofArgument (depth - 1) argument :: listFrom (depth - 1) rest
    else if argument = openBrace then ofArgument depth argument :: listFrom (depth + 1) rest
    else ofArgument depth argument :: listFrom depth rest

def ofArguments (arguments : List String) : List Template :=
  listFrom 0 arguments

def isSubstituted (template : Template) : Bool :=
  template.depth == 0 && template.hasDefinitions

end Template

namespace Entry

/-- An entry from its command and arguments; a `~` in front of the command makes the queue wait. -/
def ofCommand (command : String) (arguments : List String) : Entry :=
  match command.toList with
  | '~' :: name => { command := String.ofList name, arguments, waits := true }
  | _ => { command, arguments, waits := false }

def dropDash (command : String) : String :=
  match command.toList with
  | '-' :: c :: rest => String.ofList (c :: rest)
  | _ => command

def afterDash (words : List String) : List String :=
  match words with
  | "-" :: rest => rest
  | _ => words

/-- An entry from the words of its line. A `~` may stand apart from the command. -/
def ofTokens (words : List String) : Except EntryError Entry :=
  match afterDash words with
  | [] => .error .empty
  | first :: rest =>
    if dropDash first = "~" then
      match rest with
      | [] => .error .empty
      | command :: arguments => .ok (ofCommand ("~" ++ command) arguments)
    else .ok (ofCommand (dropDash first) rest)

def ofLine (line : String) : Except EntryError Entry :=
  match Text.words? (Text.trim line) with
  | none => .error (.unreadable line)
  | some words => ofTokens words

def templates (entry : Entry) : List Template :=
  Template.ofArguments entry.arguments

def hasDefinitions (entry : Entry) : Bool :=
  entry.templates.any Template.isSubstituted

def hasTags (entry : Entry) : Bool :=
  entry.templates.any Template.hasTags

def hasBraces (entry : Entry) : Bool :=
  entry.arguments.contains openBrace

def shownArgument (argument : String) : String :=
  if argument.isEmpty || argument.toList.any Text.isBlank then
    "\"" ++ Text.replace argument "\"" "\\\"" ++ "\""
  else argument

def text (entry : Entry) : String :=
  (if entry.waits then "~" else "") ++ entry.command
    ++ String.join (entry.arguments.map fun argument => " " ++ shownArgument argument)

end Entry

end TagScript
