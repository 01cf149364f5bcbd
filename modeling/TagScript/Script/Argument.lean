import TagScript.Script.Entry
import TagScript.Table
import TagScript.Text.Case

/-! The filled arguments of one entry, and which of them were read. -/

namespace TagScript

structure Argument where
  value : String
  read : Bool
  deriving DecidableEq, Repr

/-- Arguments outside every brace: those in order, and those with a declared word in front. -/
structure Arguments where
  positional : List Argument
  prefixed : Table Argument
  deriving DecidableEq, Repr

namespace Arguments

def isWordChar (c : Char) : Bool :=
  c.isAlphanum || c == '_' || c == '-'

def cutWord? (argument : String) : Option (String × String) :=
  (Text.cutOnceText ':' argument).filter fun (word, _) =>
    !word.isEmpty && word.toList.all isWordChar

def declared? (words : List String) (argument : String) : Option (String × String) :=
  (cutWord? argument).filter fun (word, _) => words.any (Text.sameWord · word)

/-- Files one argument. Of two with the same declared word the later one stays. -/
def add (words : List String) (arguments : Arguments) (argument : String) : Arguments :=
  match declared? words argument with
  | some (word, value) =>
    { arguments with
      prefixed := arguments.prefixed.set (Text.asciiLower word) ⟨value, false⟩ }
  | none => { arguments with positional := arguments.positional ++ [⟨argument, false⟩] }

def addFrom (words : List String) (depth : Nat) (arguments : Arguments) : List String → Arguments
  | [] => arguments
  | argument :: rest =>
    if argument = openBrace then addFrom words (depth + 1) arguments rest
    else if argument = closeBrace then addFrom words (depth - 1) arguments rest
    else if 0 < depth then addFrom words depth arguments rest
    else addFrom words depth (arguments.add words argument) rest

/-- Sorts filled arguments by the declared words. Braces and what they hold are left out. -/
def ofFilled (words : List String) (filled : List String) : Arguments :=
  addFrom words 0 ⟨[], []⟩ filled

def size (arguments : Arguments) : Nat :=
  arguments.positional.length + arguments.prefixed.length

def positional? (index : Nat) (arguments : Arguments) : Option String × Arguments :=
  match arguments.positional[index]? with
  | none => (none, arguments)
  | some argument =>
    (some argument.value,
      { arguments with positional := arguments.positional.set index { argument with read := true } })

def prefixed? (word : String) (arguments : Arguments) : Option String × Arguments :=
  let key := Text.asciiLower word
  match arguments.prefixed.get? key with
  | none => (none, arguments)
  | some argument =>
    (some argument.value,
      { arguments with
        prefixed := arguments.prefixed.set key { argument with read := true } })

def takePrefixed (word : String) (arguments : Arguments) : Option String × Arguments :=
  let key := Text.asciiLower word
  ((arguments.prefixed.get? key).map (·.value),
    { arguments with prefixed := arguments.prefixed.erase key })

/-- Removes the first argument that is the given keyword. -/
def takeFlag (word : String) (arguments : Arguments) : Bool × Arguments :=
  match arguments.positional.findIdx? fun argument => Text.sameWord argument.value word with
  | none => (false, arguments)
  | some index => (true, { arguments with positional := arguments.positional.eraseIdx index })

/-- The arguments that nobody claims. Each `word:value` is offered once, in order. -/
def unclaimed {m : Type → Type} [Monad m] (claim : String → String → m Bool) :
    List Argument → m (List Argument)
  | [] => pure []
  | argument :: rest =>
    match cutWord? argument.value with
    | none => do return argument :: (← unclaimed claim rest)
    | some (word, value) => do
      let claimed ← claim word value
      let kept ← unclaimed claim rest
      return if claimed then kept else argument :: kept

def offer {m : Type → Type} [Monad m] (claim : String → String → m Bool) (arguments : Arguments) :
    m Arguments := do
  return { arguments with positional := ← unclaimed claim arguments.positional }

/-- Reads all positional arguments not read yet, as one text. -/
def remaining (arguments : Arguments) : String × Arguments :=
  (Text.spaced ((arguments.positional.filter (!·.read)).map (·.value)),
    { arguments with positional := arguments.positional.map ({ · with read := true }) })

/-- The arguments that nothing has read: the positional ones, then the others sorted. -/
def unread (arguments : Arguments) : List String :=
  (arguments.positional.filter (!·.read)).map (·.value)
    ++ sortedTexts ((arguments.prefixed.filter (!·.2.read)).map fun (word, argument) =>
      word ++ ":" ++ argument.value)

def allRead (arguments : Arguments) : Bool :=
  arguments.positional.all (·.read) && arguments.prefixed.all (·.2.read)

end Arguments

end TagScript
