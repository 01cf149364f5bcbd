import TagScript.Queue.Basic
import TagScript.Script.Source

/-! Firing a script: what is asked for and what comes of it. -/

namespace TagScript

inductive ScriptSource where
  | named (name : String)
  | inline (script : Script)

structure FireOptions where
  /-- A live queue of this id takes the entries; otherwise a queue of this id is made. -/
  id : Option String := none
  speed : Option Int := none
  definitions : List (String × String) := []
  context : Option (Table String) := none
  offMain : Bool := false

namespace FireOptions

def define (name value : String) (options : FireOptions) : FireOptions :=
  { options with definitions := options.definitions ++ [(name, value)] }

def text (options : FireOptions) : String :=
  Text.shownRecord "FireOptions"
    [("id", Text.shownOption (options.id.map Text.quoted)),
      ("speed", Text.shownOption (options.speed.map toString)),
      ("definitions", Text.shownList (options.definitions.map fun (name, value) =>
        s!"({Text.quoted name}, {Text.quoted value})")),
      ("context", Text.shownBool options.context.isSome),
      ("off_main", Text.shownBool options.offMain)]

end FireOptions

structure FireRequest where
  source : ScriptSource
  options : FireOptions := {}

structure FireResult where
  queue : QueueRef
  queueId : String
  fire : FireId
  outcome : Option (List String)

inductive FireError where
  | unknownScript (name : String)
  deriving DecidableEq, Repr

def FireError.message : FireError → String
  | .unknownScript name => s!"No script named '{name}' is registered."

end TagScript
