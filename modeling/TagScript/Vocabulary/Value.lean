import TagScript.Vocabulary.Procedure

/-! Attributes that apply to every value, and the list of all built-in tags. -/

namespace TagScript.Vocabulary

open Tag (Answering Attribute Lookup Resolver Resolved)

variable {η : Type}

def number? (text : String) : Option Float :=
  (Number.float? (Text.trim text)).filter Float.isFinite

def numberText (number : Float) : String :=
  if number == 0 then "0"
  else if number == number.round && number.abs < 1e15 then Number.wholeText number
  else Number.shortText number

def arithmetic? (operation : String) (left right : Float) : Option Float :=
  match operation with
  | "add" => some (left + right)
  | "sub" => some (left - right)
  | "mul" => some (left * right)
  | _ => if right == 0 then none else some (left / right)

def plainAttribute? (key value : String) : Option String :=
  match key with
  | "length" => some (toString value.length)
  | "to_uppercase" => some (Text.upper value)
  | "to_lowercase" => some (Text.lower value)
  | "is_integer" => some (Text.shownBool (Number.signed? (Text.trim value)).isSome)
  | "round" => (number? value).map fun number => numberText number.round
  | _ => none

def comparison? (key value text : String) : Option String :=
  match key with
  | "contains" => some (Text.shownBool (Text.contains value text))
  | "starts_with" => some (Text.shownBool (Text.startsWith value text))
  | "equals" => some (Text.shownBool (value == text))
  | _ => none

def replaceAttribute (value : String) (lookup : Lookup) (position : Nat) :
    Answering (World η) Resolved := do
  let old ← Answering.bracket position
  if old.isEmpty then failure
  if lookup.keyIs (position + 1) "with" then
    let new ← OptionT.lift (Tag.Acting.bracket (position + 1))
    return ⟨Text.replace value old (new.getD ""), position + 2⟩
  return ⟨Text.replace value old "", position + 1⟩

def values : Attribute (World η) where
  apply := fun value lookup position => do
    let key := Text.asciiLower (← Answering.ofOption (lookup.key? position))
    match key with
    | "add" | "sub" | "mul" | "div" =>
      let left ← Answering.ofOption (number? value)
      let right ← Answering.ofOption (number? (← Answering.bracket position))
      let result ← Answering.ofOption (arithmetic? key left right)
      return ⟨numberText result, position + 1⟩
    | "contains" | "starts_with" | "equals" =>
      let text ← Answering.bracket position
      return ⟨← Answering.ofOption (comparison? key value text), position + 1⟩
    | "replace" => replaceAttribute value lookup position
    | _ => return ⟨← Answering.ofOption (plainAttribute? key value), position + 1⟩

/-- The tags that every engine may have, in the order in which they are asked. -/
def resolvers : List (Resolver (World η)) :=
  [definition, queue, savedEntry, context, element, procedure]

def attributes : List (Attribute (World η)) := [values]

end TagScript.Vocabulary
