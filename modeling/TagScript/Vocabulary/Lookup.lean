import TagScript.World

/-! Tags that look something up: definitions, queues, saved entries, the context of a queue, and
plain text. -/

namespace TagScript.Vocabulary

open Tag (Answering Lookup Resolver Resolved)

variable {η : Type}

def ownQueue (lookup : Lookup) : Answering (World η) Queue := do
  let ref ← Answering.ofOption lookup.context.queue
  return (← Answering.world).queue ref

def definition : Resolver (World η) where
  name := "definition"
  resolve := fun lookup => do
    if !lookup.keyIs 0 "def" && !lookup.keyIs 0 "" then failure
    let name ← Answering.bracket 0
    let queue ← ownQueue lookup
    return ⟨← Answering.ofOption (queue.definition? name), 1⟩

def liveQueue? (lookup : Lookup) (world : World η) (id : String) : Option QueueRef :=
  if lookup.context.attached then world.liveQueue? id else none

def queueProperty? (now : Duration) (queue : Queue) (property : String) : Option String :=
  match Text.asciiLower property with
  | "id" => some queue.id
  | "size" => some (toString queue.entries.length)
  | "speed" => some (toString queue.kind.ticks)
  | "state" => some (queue.stateText now)
  | "definitions" => some (String.intercalate "|" queue.definitionNames)
  | _ => none

/-- `<queue>` and `<queue[id]>` with a property, and `<queue.exists[id]>`. -/
def queue : Resolver (World η) where
  name := "queue"
  resolve := fun lookup => do
    if !lookup.keyIs 0 "queue" then failure
    if !lookup.hasBracket 0 && lookup.keyIs 1 "exists" then
      let id ← Answering.bracket 1
      if !lookup.context.attached then failure
      let world ← Answering.world
      return ⟨Text.shownBool (world.liveQueue? id).isSome, 2⟩
    let found ←
      if lookup.hasBracket 0 then do
        let id ← Answering.bracket 0
        let world ← Answering.world
        let ref ← Answering.ofOption (liveQueue? lookup world id)
        pure (world.queue ref)
      else ownQueue lookup
    let world ← Answering.world
    let now := if lookup.context.attached then world.now else Duration.zero
    match (lookup.key? 1).bind (queueProperty? now found) with
    | some value => return ⟨value, 2⟩
    | none => return ⟨found.id, 1⟩

def savedEntry : Resolver (World η) where
  name := "entry"
  resolve := fun lookup => do
    if !lookup.keyIs 0 "entry" then failure
    let name ← Answering.bracket 0
    let queue ← ownQueue lookup
    let invocation ← Answering.ofOption (queue.saved? name)
    match lookup.key? 1 with
    | some object => return ⟨← Answering.ofOption (invocation.object? object), 2⟩
    | none => return ⟨invocation.text, 1⟩

def context : Resolver (World η) where
  name := "context"
  resolve := fun lookup => do
    if !lookup.keyIs 0 "context" then failure
    let name ← Answering.ofOption (lookup.key? 1)
    let queue ← ownQueue lookup
    return ⟨← Answering.ofOption (queue.contextValue? name), 2⟩

def element : Resolver (World η) where
  name := "element"
  resolve := fun lookup => do
    if !lookup.keyIs 0 "element" then failure
    return ⟨← Answering.bracket 0, 1⟩

end TagScript.Vocabulary
