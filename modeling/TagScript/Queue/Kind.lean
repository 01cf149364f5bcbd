import TagScript.Duration
import TagScript.Text.Quoted

/-! How fast a queue runs its entries. -/

namespace TagScript

inductive QueueKind where
  | instant
  | timed (ticks : Int)
  deriving DecidableEq, Repr, Inhabited

namespace QueueKind

def ofSpeed (ticks : Int) : QueueKind := if ticks ≤ 0 then .instant else .timed ticks

/-- The speed of an instant queue that has to wait. -/
def afterWaiting : QueueKind := .timed 1

def ticks : QueueKind → Int
  | .instant => 0
  | .timed ticks => ticks

/-- A speed that is not positive leaves no time between entries. -/
def isInstant (kind : QueueKind) : Bool := kind.ticks ≤ 0

def period (kind : QueueKind) : Duration := .ofTicks kind.ticks

def text : QueueKind → String
  | .instant => "Instant"
  | .timed ticks => Text.shownRecord "Timed" [("ticks", toString ticks)]

end QueueKind

end TagScript
