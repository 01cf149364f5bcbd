import TagScript.Config.Scalar
import TagScript.Table

/-! The tables of a configuration document. No key may be set twice, and a table may be opened only
once. -/

namespace TagScript.Config

/-- How a table came about: on the way to another one, by a dotted key, or by a header. -/
inductive Origin where
  | implied
  | dotted
  | header
  deriving DecidableEq

/-- A value, a table, or a list of tables of which only the last can still grow. -/
inductive Node where
  | value (value : Value)
  | table (origin : Origin) (children : List (String × Node))
  | tables (last : List (String × Node))

abbrev Members := Table Node

namespace Members

def inside (change : Members → Option Members) : List String → Members → Option Members
  | [], members => change members
  | key :: path, members =>
    match members.get? key with
    | some (.table origin children) => do
      return members.set key (.table origin (← inside change path children))
    | some (.tables last) => do return members.set key (.tables (← inside change path last))
    | _ => none

/-- Sets a key, which may be dotted. Dotted keys go on only with tables that dotted keys made. -/
def assign (value : Value) : List String → Members → Option Members
  | [], _ => none
  | [key], members => if members.holds key then none else some (members.set key (.value value))
  | key :: next :: path, members =>
    match members.get? key with
    | none => do return members.set key (.table .dotted (← assign value (next :: path) []))
    | some (.table .dotted children) => do
      return members.set key (.table .dotted (← assign value (next :: path) children))
    | some (.table .implied children) =>
      if path.isEmpty then none
      else do return members.set key (.table .implied (← assign value (next :: path) children))
    | some (.tables last) =>
      if path.isEmpty then none
      else do return members.set key (.tables (← assign value (next :: path) last))
    | _ => none

/-- Goes to the table before the last key of a header, making the tables on the way, and changes what
the last key stands for. -/
def reach (change : Option Node → Option Node) : List String → Members → Option Members
  | [], _ => none
  | [key], members => do return members.set key (← change (members.get? key))
  | key :: next :: path, members =>
    match members.get? key with
    | none => do return members.set key (.table .implied (← reach change (next :: path) []))
    | some (.table origin children) => do
      return members.set key (.table origin (← reach change (next :: path) children))
    | some (.tables last) => do
      return members.set key (.tables (← reach change (next :: path) last))
    | _ => none

def openTable (path : List String) (members : Members) : Option Members :=
  reach (fun held =>
    match held with
    | none => some (.table .header [])
    | some (.table .implied children) => some (.table .header children)
    | _ => none) path members

def openNext (path : List String) (members : Members) : Option Members :=
  reach (fun held =>
    match held with
    | none => some (.tables [])
    | some (.tables _) => some (.tables [])
    | _ => none) path members

end Members

end TagScript.Config
