import TagScript.Tag.Escape
import TagScript.Text.Blank

/-! Replacing `%name%` by the value of a definition. The value is put in as plain text; `%|name|%`
puts it in as it is, so that a definition can carry tags. -/

namespace TagScript

/-- What is written for anything that has no value. -/
def nullText : String := "null"

namespace Definition

/-- A part of a text: a plain character, or a mark to be replaced. -/
inductive Fragment where
  | plain (c : Char)
  | mark (name : List Char) (bare : Bool)
  deriving DecidableEq, Repr

def isNameChar (c : Char) : Bool :=
  !(c == '%' || c == '|' || Text.isBlank c)

/-- Reads the rest of a mark behind its first `%`, and gives what follows the mark. -/
def mark? (chars : List Char) : Option (Fragment × List Char) :=
  match chars with
  | '|' :: inner =>
    match inner.takeWhile isNameChar, inner.dropWhile isNameChar with
    | first :: name, '|' :: '%' :: after => some (.mark (first :: name) true, after)
    | _, _ => none
  | inner =>
    match inner.takeWhile isNameChar, inner.dropWhile isNameChar with
    | first :: name, '%' :: after => some (.mark (first :: name) false, after)
    | _, _ => none

theorem length_of_mark? {chars after : List Char} {fragment : Fragment}
    (found : mark? chars = some (fragment, after)) : after.length < chars.length := by
  unfold mark? at found
  split at found
  · rename_i inner
    split at found
    · rename_i front back
      simp only [Option.some.injEq, Prod.mk.injEq] at found
      obtain ⟨_, rfl⟩ := found
      have whole := congrArg List.length (List.takeWhile_append_dropWhile (p := isNameChar) (l := inner))
      rw [front, back] at whole
      simp only [List.length_append, List.length_cons] at whole ⊢
      omega
    · simp at found
  · split at found
    · rename_i front back
      simp only [Option.some.injEq, Prod.mk.injEq] at found
      obtain ⟨_, rfl⟩ := found
      have whole := congrArg List.length (List.takeWhile_append_dropWhile (p := isNameChar) (l := chars))
      rw [front, back] at whole
      simp only [List.length_append, List.length_cons] at whole ⊢
      omega
    · simp at found

def fragments : List Char → List Fragment
  | [] => []
  | c :: rest =>
    if c = '%' then
      match _found : mark? rest with
      | some (mark, after) => mark :: fragments after
      | none => .plain c :: fragments rest
    else .plain c :: fragments rest
termination_by text => text.length
decreasing_by
  · have := length_of_mark? _found
    simp_wf
    omega
  · simp_wf
  · simp_wf

def Fragment.fill (lookup : String → Option String) : Fragment → String × List String
  | .plain c => (String.singleton c, [])
  | .mark name bare =>
    match lookup (String.ofList name) with
    | some value => (if bare then value else Tag.escape value, [])
    | none => (nullText, [String.ofList name])

/-- The text with every mark replaced, and the names that have no value, in order. -/
def substitute (lookup : String → Option String) (text : String) : String × List String :=
  let filled := (fragments text.toList).map (Fragment.fill lookup)
  (String.join (filled.map (·.1)), filled.flatMap (·.2))

end Definition

end TagScript
