import TagScript.World

/-! What the engine needs from the application around it. -/

namespace TagScript

structure Host where
  defaultSpeed : Int := 0
  timeout : Option Duration := none
  debug : Bool := true
  prepare : Option Entry → Tag.Context → Tag.Context := fun _ context => context
  claims : Entry → String → String → Bool := fun _ _ _ => false
  tellMessage : Option String → String → Event := .message
  tellError : Option String → String → Event := .error
  tellEntry : String → String → Event := .entry

namespace Host

variable {η : Type}

def tell (host : Host) (queue : Option String) (text : String) (world : World η) : World η :=
  (world.emit (host.tellMessage queue text)).jot (.message queue text)

def report (host : Host) (queue : Option String) (text : String) (world : World η) : World η :=
  (world.emit (host.tellError queue text)).jot (.error queue text)

def message (host : Host) (queue : Option String) (text : String) : RunM η Unit :=
  RunM.update (host.tell queue text)

def error (host : Host) (queue : Option String) (text : String) : RunM η Unit :=
  RunM.update (host.report queue text)

def remark (host : Host) (queue : String) (text : String) : RunM η Unit := do
  if host.debug then host.message (some queue) text

def logging (host : Host) : Host :=
  { host with
    tellMessage := fun queue text => .log .debug ("[" ++ queue.getD "-" ++ "] " ++ text)
    tellError := fun queue text => .log .error ("[" ++ queue.getD "-" ++ "] " ++ text)
    tellEntry := fun queue text => .log .debug s!"[{queue}] Executing: {text}" }

end Host

end TagScript
