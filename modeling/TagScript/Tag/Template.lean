import TagScript.Tag.Chain
import TagScript.Tag.Escape
import TagScript.Text.Blank

/-! Templates: texts cut into plain pieces and tags. -/

namespace TagScript.Tag

/-- What stands between the angle brackets of a tag. -/
structure Body where
  raw : String
  lookup : String
  fallback : Option String
  /-- The lookup holds a tag outside every bracket, so it is filled before it is read. -/
  dynamic : Bool
  deriving DecidableEq, Repr, Inhabited

def Body.ofText (raw : String) : Body :=
  let (lookup, fallback) := cutFallback raw
  { raw, lookup, fallback, dynamic := hasOuterTag lookup }

inductive Piece where
  | literal (text : String)
  | tag (body : Body)
  deriving DecidableEq, Repr

/-- One sign of a template: a plain character, or a whole tag. -/
inductive Sign where
  | plain (c : Char)
  | tag (body : List Char)
  deriving DecidableEq, Repr

/-- Whether a `<` opens a tag, judged by what follows it. -/
def opensTag (rest : List Char) : Bool :=
  match rest with
  | [] => false
  | c :: _ => !(Text.isBlank c || c == '=' || c == '>')

def tagDepth (depth : Nat) (c : Char) : Nat :=
  match c with
  | '<' => depth + 1
  | '>' => depth - 1
  | _ => depth

/-- The characters up to the `>` that closes a tag already open and those after it, `depth` more
tags being open inside it. A backslash hides the character behind it. -/
def closeTag (hidden : Bool) (depth : Nat) : List Char → Option (List Char × List Char)
  | [] => none
  | c :: rest =>
    if !hidden && c = '>' && depth == 0 then some ([], rest)
    else
      let found :=
        if hidden then closeTag false depth rest
        else if c = '\\' then closeTag true depth rest
        else closeTag false (tagDepth depth c) rest
      found.map fun (body, after) => (c :: body, after)

theorem length_of_closeTag {hidden : Bool} {depth : Nat} {text body after : List Char}
    (closed : closeTag hidden depth text = some (body, after)) :
    body.length + after.length + 1 = text.length := by
  induction text generalizing hidden depth body after with
  | nil => simp [closeTag] at closed
  | cons c rest ih =>
    rw [closeTag] at closed
    split at closed
    · simp only [Option.some.injEq, Prod.mk.injEq] at closed
      obtain ⟨rfl, rfl⟩ := closed
      simp
    · obtain ⟨⟨inner, tail⟩, found, shape⟩ := Option.map_eq_some_iff.1 closed
      simp only [Prod.mk.injEq] at shape
      obtain ⟨rfl, rfl⟩ := shape
      have : inner.length + tail.length + 1 = rest.length := by
        split at found
        · exact ih found
        · split at found <;> exact ih found
      simp
      omega

/-- Reads a text sign by sign. A backslash before an angle bracket makes it plain, and so does the
lack of a bracket that closes it. -/
def signs : List Char → List Sign
  | [] => []
  | '\\' :: '<' :: rest => .plain (escapeChar '<') :: signs rest
  | '\\' :: '>' :: rest => .plain (escapeChar '>') :: signs rest
  | '<' :: rest =>
    if opensTag rest then
      match _closed : closeTag false 0 rest with
      | some (body, after) => .tag body :: signs after
      | none => .plain '<' :: signs rest
    else .plain '<' :: signs rest
  | c :: rest => .plain c :: signs rest
termination_by text => text.length
decreasing_by
  all_goals simp only [List.length_cons]
  · omega
  · omega
  · have := length_of_closeTag _closed
    omega
  · omega
  · omega
  · omega

def literalOf (gathered : List Char) : List Piece :=
  if gathered.isEmpty then [] else [.literal (String.ofList gathered.reverse)]

def piecesFrom (gathered : List Char) : List Sign → List Piece
  | [] => literalOf gathered
  | .plain c :: rest => piecesFrom (c :: gathered) rest
  | .tag body :: rest =>
    literalOf gathered ++ .tag (Body.ofText (String.ofList body)) :: piecesFrom [] rest

def pieces (text : String) : List Piece :=
  piecesFrom [] (signs text.toList)

def mayHoldTags (text : String) : Bool :=
  text.toList.contains '<'

end TagScript.Tag
