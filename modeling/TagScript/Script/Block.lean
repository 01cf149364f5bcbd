import TagScript.Script.Entry
import TagScript.Text.Case

/-! Blocks: the braced parts of commands such as `repeat`. Inside a block a dash starts an entry, and
inner braces stay words of the entry that owns them. -/

namespace TagScript

inductive BlockError where
  | unclosed
  | strayClose
  | missingDash (word : String)
  | emptyCommand
  | duplicateKey (key : String)
  deriving DecidableEq, Repr

def BlockError.message : BlockError → String
  | .unclosed => "A '\x7b' was never closed."
  | .strayClose => "Found a '\x7d' with no matching '\x7b'."
  | .missingDash word => s!"Block content must start with '-', found '{word}'."
  | .emptyCommand => "A '-' inside a block is not followed by a command."
  | .duplicateKey key => s!"Block key '{key}' is used more than once."

/-- One braced block and the words in front of it. -/
structure Block where
  key : String
  entries : List Entry
  deriving DecidableEq, Repr

structure ItemReader where
  entries : List Entry
  item : Option (List String)
  depth : Nat

namespace ItemReader

def start : ItemReader := ⟨[], none, 0⟩

def finish (reader : ItemReader) : Except BlockError (List Entry) :=
  match reader.item with
  | none => .ok reader.entries
  | some words =>
    match Entry.ofTokens words.reverse with
    | .ok entry => .ok (entry :: reader.entries)
    | .error _ => .error .emptyCommand

def step (reader : ItemReader) (word : String) : Except BlockError ItemReader :=
  if reader.depth = 0 && word = "-" then
    reader.finish.map fun entries => ⟨entries, some [], 0⟩
  else match reader.item with
    | none => .error (.missingDash word)
    | some words =>
      let depth :=
        if word = openBrace then reader.depth + 1
        else if word = closeBrace then reader.depth - 1
        else reader.depth
      .ok { reader with item := some (word :: words), depth }

end ItemReader

def entriesOfBlock (words : List String) : Except BlockError (List Entry) := do
  let reader ← words.foldlM ItemReader.step ItemReader.start
  return (← reader.finish).reverse

/-- A list of words read up to some word: the blocks so far, the key in front of the next one, and
the words inside the open one. Lists are kept last first. -/
structure BlockReader where
  blocks : List Block
  key : List String
  inner : List String
  depth : Nat

namespace BlockReader

def start : BlockReader := ⟨[], [], [], 0⟩

/-- Completes the open block. A repeated key is noticed before the content is read. -/
def close (reader : BlockReader) : Except BlockError BlockReader := do
  let key := Text.lower (Text.spaced reader.key.reverse)
  if reader.blocks.any (·.key == key) then throw (.duplicateKey key)
  let entries ← entriesOfBlock reader.inner.reverse
  return ⟨⟨key, entries⟩ :: reader.blocks, [], [], 0⟩

def step (reader : BlockReader) (word : String) : Except BlockError BlockReader :=
  match reader.depth with
  | 0 =>
    if word = openBrace then .ok { reader with depth := 1 }
    else if word = closeBrace then .error .strayClose
    else .ok { reader with key := word :: reader.key }
  | depth + 1 =>
    if word = closeBrace then
      if depth = 0 then reader.close
      else .ok { reader with inner := word :: reader.inner, depth }
    else if word = openBrace then
      .ok { reader with inner := word :: reader.inner, depth := depth + 2 }
    else .ok { reader with inner := word :: reader.inner }

end BlockReader

/-- The blocks among the words of an entry. -/
def blocksOf (words : List String) : Except BlockError (List Block) := do
  let reader ← words.foldlM BlockReader.step BlockReader.start
  if reader.depth = 0 then return reader.blocks.reverse else throw .unclosed

end TagScript
