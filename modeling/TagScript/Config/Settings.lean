import TagScript.Config.Document
import TagScript.Host

/-! The settings of an engine, as a configuration document states them. -/

namespace TagScript

structure Config where
  defaultQueueSpeed : Int := 0
  tagTimeoutMs : Option Nat := none
  debug : Bool := true
  tickRateMs : Nat := 50
  deriving DecidableEq, Repr

namespace Config

def setting? {α : Type} (read : Value → Option α) (members : Members) (key : String) :
    Option (Option α) :=
  match members.get? key with
  | none => some none
  | some (.value value) => (read value).map some
  | some _ => none

def signedValue? : Value → Option Int
  | .integer value => if Number.fitsSigned value then some value else none
  | _ => none

def countValue? : Value → Option Nat
  | .integer value => if 0 ≤ value && value ≤ Number.maxCount then some value.toNat else none
  | _ => none

def boolValue? : Value → Option Bool
  | .boolean value => some value
  | _ => none

def parse? (text : String) : Option Config := do
  let members ← document? text
  let speed ← setting? signedValue? members "default_queue_speed"
  let timeout ← setting? countValue? members "tag_timeout_ms"
  let debug ← setting? boolValue? members "debug"
  let rate ← setting? countValue? members "tick_rate_ms"
  let standard : Config := {}
  return { defaultQueueSpeed := speed.getD standard.defaultQueueSpeed, tagTimeoutMs := timeout
           debug := debug.getD standard.debug, tickRateMs := rate.getD standard.tickRateMs }

def render (config : Config) : String :=
  s!"default_queue_speed = {config.defaultQueueSpeed}\n"
    ++ (config.tagTimeoutMs.map fun millis => s!"tag_timeout_ms = {millis}\n").getD ""
    ++ "debug = " ++ Text.shownBool config.debug ++ "\n"
    ++ s!"tick_rate_ms = {config.tickRateMs}\n"

def timeout (config : Config) : Option Duration := config.tagTimeoutMs.map Duration.ofMillis

def host (config : Config) : Host :=
  Host.logging
    { defaultSpeed := config.defaultQueueSpeed, timeout := config.timeout, debug := config.debug }

end Config

end TagScript
