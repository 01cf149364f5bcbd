import TagScript.Event
import TagScript.Firing
import TagScript.Tag.Chain
import TagScript.Text.Case

/-! What resolvers and attributes do. Each one is a tree of questions: it changes the world `σ` as it
likes, and it may ask for the text of a bracket, call a procedure script, or look at and set the
cancellation of the filling it is part of. The evaluator answers the questions. -/

namespace TagScript.Tag

/-- Where a text is being filled. -/
structure Context where
  queue : Option QueueRef := none
  queueId : Option String := none
  entry : Option String := none
  script : Option String := none
  attached : Bool := true
  deriving DecidableEq, Repr

structure Procedure where
  script : String
  definitions : List (String × String)

abbrev CallResult := Except FireError (Option (List String))

inductive Act (σ α : Type) where
  | done (result : α) (world : σ)
  | bracket (position : Nat) (world : σ) (resume : Option String → σ → Act σ α)
  | call (procedure : Procedure) (world : σ) (resume : CallResult → σ → Act σ α)
  | cancel (world : σ) (resume : σ → Act σ α)
  | isCancelled (world : σ) (resume : Bool → σ → Act σ α)

def Acting (σ α : Type) : Type := σ → Act σ α

variable {σ α β : Type}

def Act.andThen (act : Act σ α) (next : α → Acting σ β) : Act σ β :=
  match act with
  | .done result world => next result world
  | .bracket position world resume =>
    .bracket position world fun answer world => (resume answer world).andThen next
  | .call procedure world resume =>
    .call procedure world fun answer world => (resume answer world).andThen next
  | .cancel world resume => .cancel world fun world => (resume world).andThen next
  | .isCancelled world resume =>
    .isCancelled world fun answer world => (resume answer world).andThen next

namespace Acting

instance : Monad (Acting σ) where
  pure result := fun world => .done result world
  bind act next := fun world => (act world).andThen next

def world : Acting σ σ := fun world => .done world world

def modify (change : σ → σ) : Acting σ Unit := fun world => .done () (change world)

def bracket (position : Nat) : Acting σ (Option String) := fun world =>
  .bracket position world .done

def call (procedure : Procedure) : Acting σ CallResult := fun world =>
  .call procedure world .done

def cancel : Acting σ Unit := fun world => .cancel world (.done ())

def isCancelled : Acting σ Bool := fun world => .isCancelled world .done

end Acting

/-- A chain that is being looked up. -/
structure Lookup where
  chain : Chain
  /-- How many tags are open around this one, itself included. -/
  depth : Nat
  context : Context

namespace Lookup

def size (lookup : Lookup) : Nat := lookup.chain.components.length

def component? (position : Nat) (lookup : Lookup) : Option Component :=
  lookup.chain.components[position]?

def key? (position : Nat) (lookup : Lookup) : Option String :=
  (lookup.component? position).map (·.key)

def keyIs (position : Nat) (word : String) (lookup : Lookup) : Bool :=
  (lookup.key? position).any (Text.sameWord · word)

def hasBracket (position : Nat) (lookup : Lookup) : Bool :=
  (lookup.component? position).any (·.context.isSome)

def text (lookup : Lookup) : String :=
  Text.shownRecord "TagLookup"
    [("chain", Text.quoted lookup.chain.raw), ("depth", toString lookup.depth)]

end Lookup

def Context.text (cancelled : Bool) (context : Context) : String :=
  Text.shownRecord "TagContext"
    [("queue", Text.shownOption (context.queueId.map Text.quoted)),
      ("entry", Text.shownOption (context.entry.map Text.quoted)),
      ("script", Text.shownOption (context.script.map Text.quoted)),
      ("cancelled", Text.shownBool cancelled)]

structure Resolved where
  value : String
  position : Nat
  deriving DecidableEq, Repr

abbrev Answering (σ α : Type) := OptionT (Acting σ) α

def Answering.bracket (position : Nat) : Answering σ String :=
  OptionT.mk (Acting.bracket position)

def Answering.ofOption (value : Option α) : Answering σ α :=
  OptionT.mk (pure value)

def Answering.world : Answering σ σ := OptionT.lift Acting.world

/-- Gives a value to the first components of a chain, or leaves them to the next resolver. -/
structure Resolver (σ : Type) where
  name : String
  resolve : Lookup → Answering σ Resolved

/-- Applies further components of a chain to a value. -/
structure Attribute (σ : Type) where
  apply : String → Lookup → Nat → Answering σ Resolved

end TagScript.Tag
