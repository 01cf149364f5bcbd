import TagScript.Vocabulary.Lookup

/-! `<proc[script].context[a|b|…]>`: runs a script at once and takes its first determination. -/

namespace TagScript.Vocabulary

open Tag (Acting Answering Lookup Procedure Resolver Resolved)

variable {η : Type}

def callLimit : Nat := 8

def numbered (values : List String) : List (String × String) :=
  values.zipIdx.map fun (value, index) => (toString (index + 1), value)

/-- Calls a procedure unless too many calls are under way, and keeps count. -/
def callCounted (procedure : Procedure) : Acting (World η) (Option (List String)) := do
  let world ← Acting.world
  if callLimit ≤ world.calls then
    Acting.modify
      (World.log .warn s!"proc[{procedure.script}] exceeded {callLimit} nested calls.")
    return none
  Acting.modify fun world => { world with calls := world.calls + 1 }
  let result ← Acting.call procedure
  Acting.modify fun world => { world with calls := world.calls - 1 }
  match result with
  | .ok outcome => return outcome
  | .error error =>
    Acting.modify (World.log .debug s!"proc[{procedure.script}] failed: {error.message}")
    return none

def callValues (lookup : Lookup) : Answering (World η) (List (String × String) × Nat) := do
  if lookup.keyIs 1 "context" then
    let values ← Answering.bracket 1
    return (numbered (Text.cutAllText '|' values), 2)
  return ([], 1)

/-- A script that has determined nothing by the time it has to wait or ends gives no value. -/
def procedure : Resolver (World η) where
  name := "proc"
  resolve := fun lookup => do
    if !lookup.keyIs 0 "proc" then failure
    let script ← Answering.bracket 0
    if !lookup.context.attached then failure
    let (definitions, position) ← callValues lookup
    let outcome ← OptionT.mk (callCounted ⟨script, definitions⟩)
    return ⟨← Answering.ofOption outcome.head?, position⟩

end TagScript.Vocabulary
