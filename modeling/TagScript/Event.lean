/-! What a run tells the outside, in the order in which it happens. -/

namespace TagScript

inductive LogLevel where
  | error
  | warn
  | info
  | debug
  | trace
  deriving DecidableEq, Repr

def LogLevel.rank : LogLevel → Nat
  | .error => 1
  | .warn => 2
  | .info => 3
  | .debug => 4
  | .trace => 5

inductive Event where
  | message (queue : Option String) (text : String)
  | error (queue : Option String) (text : String)
  | entry (queue : String) (text : String)
  | claim (entry word value : String)
  | log (level : LogLevel) (text : String)
  | stopped (label : String)
  | host (kind : String) (fields : List (Option String))
  deriving DecidableEq, Repr

end TagScript
