import TagScript.Script.Entry

/-! Scripts: named lists of entries, read from source lines. -/

namespace TagScript

structure Script where
  name : String
  entries : List Entry
  deriving DecidableEq, Repr, Inhabited

/-- Source lines read up to some line: the entries so far, last first, the words of the unfinished
entry, and how many of its braces are open. -/
structure SourceReader where
  entries : List Entry
  pending : List String
  depth : Nat

namespace SourceReader

def start : SourceReader := ⟨[], [], 0⟩

def braceDepth (depth : Nat) (word : String) : Nat :=
  if word = openBrace then depth + 1
  else if word = closeBrace then depth - 1
  else depth

/-- Reads one line. Blank lines and comments are skipped, and an entry goes on while a brace is
open. -/
def step (reader : SourceReader) (line : String) : Except EntryError SourceReader :=
  let trimmed := Text.trim line
  if trimmed.isEmpty || trimmed.toList.head? == some '#' then .ok reader
  else match Text.words? trimmed with
    | none => .error (.unreadable trimmed)
    | some words =>
      let depth := words.foldl braceDepth reader.depth
      let pending := reader.pending ++ words
      if depth = 0 then
        (Entry.ofTokens pending).map fun entry => ⟨entry :: reader.entries, [], 0⟩
      else .ok { reader with pending, depth }

def finish (reader : SourceReader) : Except EntryError (List Entry) :=
  if reader.pending.isEmpty then .ok reader.entries.reverse
  else (Entry.ofTokens reader.pending).map fun entry => (entry :: reader.entries).reverse

end SourceReader

namespace Script

/-- A script from its source lines. -/
def ofLines (name : String) (lines : List String) : Except EntryError Script := do
  let reader ← lines.foldlM SourceReader.step SourceReader.start
  return ⟨name, ← reader.finish⟩

def instantiate (script : Script) (fire : Option FireId) : List Entry :=
  script.entries.map fun entry => { entry with script := some script.name, fire }

end Script

end TagScript
