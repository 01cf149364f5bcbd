import TagScript.Command.Narrate
import TagScript.Engine.Fire

/-! A host for rehearsing scripts. It keeps all that it is told, and its commands and tags behave in
every way that the engine has to cope with. -/

namespace TagScript.Rehearsal

structure Tally where
  count : Nat
  deriving Inhabited

def strict {η : Type} : Command η where
  name := "strict"
  minArgs := 2
  usage := "strict <a> <b> (mode:<mode>)"
  words := ["mode"]
  bind := fun invocation arguments =>
    let (mode, arguments) := arguments.prefixed? "mode"
    match mode.getD "ok" with
    | "invalid" => .error (.invalidArguments "mode is invalid")
    | "bind_error" => .error (.execution "bind failed")
    | "bind_other" => .error (.other "bind other")
    | "bind_panic" => .error (.crash (some "bind exploded"))
    | mode =>
      let (first, arguments) := arguments.positional? 0
      .ok ((invocation.setObject "mode" mode).setObject "a" (first.getD ""), arguments)
  execute := fun scene invocation => do
    match invocation.objectD "mode" "" with
    | "bad" => return .error (.execution "it went wrong")
    | "bad_args" => return .error (.invalidArguments "late complaint")
    | "other" => return .error (.other "other failure")
    | "panic" => return .error (.crash (some "strict exploded"))
    | "panic_string" =>
      let first := invocation.objectD "a" ""
      return .error (.crash (some s!"strict exploded on {first}"))
    | "panic_any" => return .error (.crash none)
    | _ =>
      RunM.emit (.host "strict" [some (← scene.queueId), invocation.object? "a"])
      return .ok invocation

def inBackground {η : Type} : Command η where
  name := "async"
  usage := "async <text> (mode:panic)"
  words := ["mode"]
  holdable := true
  bind := fun invocation arguments =>
    let (mode, arguments) := arguments.prefixed? "mode"
    let (text, arguments) := arguments.remaining
    .ok ((invocation.setObject "mode" (mode.getD "")).setObject "text" text, arguments)
  execute := fun scene invocation => do
    Command.runInBackground scene invocation
    return .ok invocation
  background := some
    { work := fun invocation =>
        if invocation.object? "mode" = some "panic" then none
        else some (invocation.objectD "text" "")
      finish := fun ref value => do
        let id := (← RunM.queue ref).id
        RunM.emit (.host "async" [some id, some value])
        RunM.modifyQueue ref (Queue.define "async" value)
        return true }

open Tag (Acting Answering Attribute Lookup Resolver Resolved)

def count : Answering (World Tally) Resolved := do
  let world ← Answering.world
  let next := world.host.count + 1
  OptionT.lift (Acting.modify fun world => { world with host := ⟨next⟩ })
  return ⟨toString next, 1⟩

def tags : Resolver (World Tally) where
  name := "host"
  resolve := fun lookup => do
    match ← Answering.ofOption (lookup.key? 0) with
    | "cancel" =>
      OptionT.lift Acting.cancel
      return ⟨"cancelled", 1⟩
    | "script" => return ⟨← Answering.ofOption lookup.context.script, 1⟩
    | "count" => count
    | "twice" =>
      let first ← Answering.bracket 0
      let second ← Answering.bracket 0
      return ⟨s!"{first}/{second}", 1⟩
    | "ignore" => return ⟨"ignored", 1⟩
    | "stuck" => return ⟨"stuck", 0⟩
    | "far" => return ⟨"far", 9⟩
    | "dbg" =>
      let cancelled ← OptionT.lift Acting.isCancelled
      return ⟨s!"{lookup.text} {lookup.context.text cancelled}", 1⟩
    | _ => failure

def attributes : Attribute (World Tally) where
  apply := fun value lookup position => do
    match ← Answering.ofOption (lookup.key? position) with
    | "wrap" =>
      let wrapping := (← OptionT.lift (Acting.bracket position)).getD "~"
      return ⟨wrapping ++ value ++ wrapping, position + 1⟩
    | "stall" => return ⟨value, position⟩
    | "swallow" => return ⟨value, position + 2⟩
    | "rest" => return ⟨s!"{lookup.size - position}:{lookup.chain.raw}", lookup.size⟩
    | _ => failure

structure Settings where
  host : Host := {}
  claims : List String := []
  scriptOverride : Option String := none
  builtins : Bool := true
  hostFirst : Bool := false
  extraCommands : List String := []

namespace Settings

def fullHost (settings : Settings) : Host :=
  { settings.host with
    claims := fun _ word _ => settings.claims.contains word
    prepare := fun _ context =>
      { context with script := settings.scriptOverride <|> context.script } }

def addHostTags (parts : EngineParts Tally) : EngineParts Tally :=
  (parts.withResolver tags).withAttribute attributes

def parts (settings : Settings) (host : Host) : EngineParts Tally :=
  let bare : EngineParts Tally := { host }
  let early := if settings.hostFirst then addHostTags bare else bare
  let filled := if settings.builtins then early.withBuiltins else early
  let late := if settings.hostFirst then filled else addHostTags filled
  let commanded := ((late.withCommand Command.narrate).withCommand strict).withCommand inBackground
  settings.extraCommands.foldl
    (fun parts name =>
      match Command.builtins.find? (·.name == name) with
      | some command => parts.withCommand command
      | none => parts)
    commanded

end Settings

end TagScript.Rehearsal
