import TagScript.Command.Basic

/-! Commands that change what a queue does next: `inject`, `repeat`, `stop`, `wait` and `queue`. -/

namespace TagScript.Command

variable {η : Type}

def inject : Command η where
  name := "inject"
  minArgs := 1
  usage := "inject <script>"
  bind := fun invocation arguments =>
    let (name, arguments) := arguments.positional? 0
    .ok (invocation.setObject "script" (name.getD ""), arguments)
  execute := fun scene invocation => do
    let name := invocation.objectD "script" ""
    match (← RunM.world).script? name with
    | none => return .error (.execution s!"no script named '{name}'")
    | some script =>
      RunM.modifyQueue scene.queue
        (Queue.injectEntries 0 (script.instantiate invocation.entry.fire))
      scene.remark s!"Injected {script.entries.length} entries from '{name}'."
      return .ok invocation

/-- The passes of a loop: each defines the counter and then runs the block. -/
def passes (name : String) (block : List Entry) (times : Nat) : List Entry :=
  (List.range times).flatMap fun index =>
    Entry.ofCommand "define" [name, toString (index + 1)] :: block

def inheritOrigin (parent entry : Entry) : Entry :=
  { entry with script := parent.script <|> entry.script, fire := parent.fire }

/-- Runs a block several times, with the number of the pass as a definition. -/
def repeatBlock : Command η where
  name := "repeat"
  minArgs := 1
  usage := "repeat <times> (as:<name>) \x7b - <command> ... \x7d"
  words := ["as"]
  bind := fun invocation arguments =>
    let (raw, arguments) := arguments.positional? 0
    match Number.count? (raw.getD "") with
    | none =>
      let shown := raw.getD ""
      .error (.invalidArguments s!"'{shown}' is not a count")
    | some times =>
      if invocation.blocks.isEmpty then .error (.invalidArguments "a braced block is required")
      else
        let (name, arguments) := arguments.prefixed? "as"
        .ok ((invocation.setObject "times" (toString times)).setObject "as" (name.getD "value"),
          arguments)
  execute := fun scene invocation =>
    match invocation.blocks with
    | [] => return .error (.execution "block was not built")
    | block :: _ => do
      let times := ((invocation.object? "times").bind Number.count?).getD 0
      let name := invocation.objectD "as" "value"
      let expanded := (passes name block.entries times).map (inheritOrigin invocation.entry)
      RunM.modifyQueue scene.queue (Queue.injectEntries 0 expanded)
      return .ok invocation

def stop : Command η where
  name := "stop"
  usage := "stop"
  execute := fun scene invocation => do
    Queue.stop scene.host scene.queue
    return .ok invocation

def wait : Command η where
  name := "wait"
  minArgs := 1
  usage := "wait <duration>"
  bind := fun invocation arguments =>
    let (raw, arguments) := arguments.positional? 0
    let raw := raw.getD ""
    if (Duration.parse? raw).isNone then .error (.invalidArguments s!"'{raw}' is not a duration")
    else .ok (invocation.setObject "duration" raw, arguments)
  execute := fun scene invocation => do
    match (invocation.object? "duration").bind Duration.parse? with
    | none => return .error (.execution "duration was not bound")
    | some duration =>
      RunM.modifyQueue scene.queue (Queue.delayFor duration (← RunM.now))
      scene.remark s!"Waiting {duration.text}."
      return .ok invocation

def queueActions : List String := ["pause", "resume", "stop", "clear"]

def actOnQueue (scene : Scene η) (invocation : Invocation) (target : QueueRef) :
    RunM η (Except Fault Unit) := do
  match invocation.objectD "action" "" with
  | "pause" => RunM.modifyQueue target (Queue.setPaused true); return .ok ()
  | "resume" => RunM.modifyQueue target (Queue.setPaused false); return .ok ()
  | "stop" => Queue.stop scene.host target; return .ok ()
  | "clear" => RunM.modifyQueue target Queue.clearEntries; return .ok ()
  | "delay" =>
    match (invocation.object? "delay").bind Duration.parse? with
    | none => return .error (.execution "delay was not bound")
    | some duration =>
      RunM.modifyQueue target (Queue.delayFor duration (← RunM.now))
      return .ok ()
  | action => return .error (.execution s!"unknown queue action '{action}'")

def queue : Command η where
  name := "queue"
  minArgs := 1
  usage := "queue (<id>) pause|resume|stop|clear|delay:<duration>"
  words := ["delay"]
  bind := fun invocation arguments =>
    match arguments.prefixed? "delay" with
    | (some delay, arguments) =>
      if (Duration.parse? delay).isNone then
        .error (.invalidArguments s!"'{delay}' is not a duration")
      else
        let (target, arguments) := arguments.positional? 0
        let invocation := (invocation.setObject "action" "delay").setObject "delay" delay
        .ok (target.elim invocation (invocation.setObject "target" ·), arguments)
    | (none, arguments) =>
      let (target, action, arguments) :=
        if arguments.positional.length = 1 then
          let (action, arguments) := arguments.positional? 0
          (none, action, arguments)
        else
          let (target, arguments) := arguments.positional? 0
          let (action, arguments) := arguments.positional? 1
          (some (target.getD ""), action, arguments)
      let action := Text.lower (action.getD "")
      if !queueActions.contains action then
        .error (.invalidArguments s!"unknown queue action '{action}'")
      else
        let invocation := invocation.setObject "action" action
        .ok (target.elim invocation (invocation.setObject "target" ·), arguments)
  execute := fun scene invocation => do
    let world ← RunM.world
    let found := match invocation.object? "target" with
      | some id => (id, world.liveQueue? id)
      | none => ("", some scene.queue)
    match found with
    | (id, none) => return .error (.execution s!"no live queue named '{id}'")
    | (_, some target) =>
      match ← actOnQueue scene invocation target with
      | .error fault => return .error fault
      | .ok () =>
        let id := (← RunM.queue target).id
        let action := invocation.objectD "action" ""
        scene.remark s!"Queue '{id}': {action}."
        return .ok invocation

end TagScript.Command
