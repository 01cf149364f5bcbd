import TagScript.Command.Narrate
import TagScript.Engine.Fire

/-! Driving an engine, tick by tick, until no queue is left. -/

namespace TagScript.Runner

inductive RunEnd where
  | idle
  | interrupted
  deriving DecidableEq, Repr

namespace RunEnd

def text : RunEnd → String
  | .idle => "Idle"
  | .interrupted => "Interrupted"

def exitCode : RunEnd → UInt32
  | .idle => 0
  | .interrupted => 130

end RunEnd

variable {η : Type}

def interrupt (engine : Engine η) : RunM η Unit := do
  let count := (← RunM.world).live.length
  RunM.log .info s!"Interrupted; stopping {count} queue(s)."
  engine.shutdown

def turn (engine : Engine η) (budget : Nat) (elapsed : Duration) (interrupted : Bool) :
    RunM η (Option RunEnd) := do
  if (← RunM.world).live.isEmpty then return some .idle
  if interrupted then
    interrupt engine
    return some .interrupted
  engine.tick budget elapsed
  return none

/-- Takes turns until the run ends, at most so many. The first tick comes after `elapsed`, every
later one after `rate`. -/
def drive (engine : Engine η) (budget : Nat) (rate : Duration) (isInterrupted : World η → Bool) :
    Nat → Duration → RunM η RunEnd
  | 0, _ => RunM.outOfBudget
  | turns + 1, elapsed => do
    match ← turn engine budget elapsed (isInterrupted (← RunM.world)) with
    | some ending => return ending
    | none => drive engine budget rate isInterrupted turns rate

def finalOutcome (fired : FireResult) : RunM η (Option (List String)) :=
  match fired.outcome with
  | some values => return some values
  | none => RunM.updateGet fun world =>
    let (values, outcomes) := world.outcomes.take fired.fire
    (values, { world with outcomes })

end TagScript.Runner
