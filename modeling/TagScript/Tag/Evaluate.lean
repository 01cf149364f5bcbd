import TagScript.Script.Definition
import TagScript.Tag.Act
import TagScript.Tag.Cache
import TagScript.Tag.Template

/-! Filling texts. Every tag is replaced by the value of its chain, by its fallback, or by `null`; a
failure is reported and never stops the filling. Values stay escaped until the whole text is
filled. -/

namespace TagScript.Tag

/-- Everything that changes while texts are filled. -/
structure Evaluation (σ : Type) where
  pieces : Cache (List Piece)
  chains : Cache Chain
  token : Bool
  /-- The same for a filling with a time limit, as long as one is under way. -/
  bound : Option Bool
  world : σ

/-- A computation on an evaluation; it gives nothing if a script outruns its budget. -/
abbrev EvalM (σ : Type) := StateT (Evaluation σ) Option

/-- What tags mean, and where failures and remarks go. -/
structure Vocabulary (σ : Type) where
  resolvers : List (Resolver σ)
  attributes : List (Attribute σ)
  report : Context → String → σ → σ
  note : LogLevel → String → σ → σ
  call : Procedure → EvalM σ CallResult
  timeout : Option Duration

inductive Failure where
  | empty
  | unrecognised (key : String)
  | unknownAttribute (key : String)
  | cancelled
  deriving DecidableEq, Repr

def Failure.message : Failure → String
  | .empty => "empty tag"
  | .unrecognised key => s!"no resolver recognised '{key}'"
  | .unknownAttribute key => s!"unknown attribute '{key}'"
  | .cancelled => "cancelled"

variable {σ α : Type}

namespace EvalM

def world : EvalM σ σ := do return (← get).world

def setWorld (world : σ) : EvalM σ Unit := modify ({ · with world })

def modifyWorld (change : σ → σ) : EvalM σ Unit :=
  modify fun evaluation => { evaluation with world := change evaluation.world }

def isCancelled : EvalM σ Bool := do
  let evaluation ← get
  return evaluation.bound.getD evaluation.token

def cancel : EvalM σ Unit :=
  modify fun evaluation =>
    match evaluation.bound with
    | some _ => { evaluation with bound := some true }
    | none => { evaluation with token := true }

end EvalM

namespace Vocabulary

def reportError (vocabulary : Vocabulary σ) (context : Context) (message : String) :
    EvalM σ Unit :=
  let shown := match context.entry with
    | some entry => s!"{message} (while filling '{entry}')"
    | none => message
  EvalM.modifyWorld (vocabulary.report context shown)

def remark (vocabulary : Vocabulary σ) (level : LogLevel) (text : String) : EvalM σ Unit :=
  EvalM.modifyWorld (vocabulary.note level text)

def readPieces (vocabulary : Vocabulary σ) (text : String) : EvalM σ (List Piece) := do
  let evaluation ← get
  let (reading, cache) := evaluation.pieces.lookupInTurns pieces text
  set { evaluation with pieces := cache }
  if !evaluation.pieces.holds text then
    vocabulary.remark .trace s!"Parsed template '{text}' into {reading.value.length} piece(s)."
  return reading.value

def readChain (body : String) : EvalM σ Chain := do
  let evaluation ← get
  let (reading, cache) := evaluation.chains.lookup Chain.parse body
  set { evaluation with chains := cache }
  return reading.value

end Vocabulary

/-- Bracket texts that were already filled, by position. -/
abbrev Memo := List (Nat × String)

def readBracket (fill : String → EvalM σ String) (lookup : Lookup) (memo : Memo)
    (position : Nat) : EvalM σ (Option String × Memo) :=
  match (lookup.component? position).bind (·.context) with
  | none => pure (none, memo)
  | some raw =>
    match memo.lookup position with
    | some text => pure (some text, memo)
    | none => do
      let text := unescape (← fill raw)
      return (some text, (position, text) :: memo)

def perform (vocabulary : Vocabulary σ) (fill : String → EvalM σ String) (lookup : Lookup) :
    Act σ α → Memo → EvalM σ (α × Memo)
  | .done result world, memo => do
    EvalM.setWorld world
    return (result, memo)
  | .bracket position world resume, memo => do
    EvalM.setWorld world
    let (answer, memo) ← readBracket fill lookup memo position
    let world ← EvalM.world
    perform vocabulary fill lookup (resume answer world) memo
  | .call procedure world resume, memo => do
    EvalM.setWorld world
    let answer ← vocabulary.call procedure
    let world ← EvalM.world
    perform vocabulary fill lookup (resume answer world) memo
  | .cancel world resume, memo => do
    EvalM.setWorld world
    EvalM.cancel
    perform vocabulary fill lookup (resume world) memo
  | .isCancelled world resume, memo => do
    EvalM.setWorld world
    let answer ← EvalM.isCancelled
    perform vocabulary fill lookup (resume answer world) memo

/-- Asks the resolvers in turn. A value that accounts for no component does not count. -/
def resolveBase (vocabulary : Vocabulary σ) (fill : String → EvalM σ String) (lookup : Lookup) :
    List (Resolver σ) → Memo → EvalM σ (Option Resolved × Memo)
  | [], memo => pure (none, memo)
  | resolver :: rest, memo => do
    let act := resolver.resolve lookup (← EvalM.world)
    let (answer, memo) ← perform vocabulary fill lookup act memo
    match answer.filter (0 < ·.position) with
    | some resolved => return (some resolved, memo)
    | none => resolveBase vocabulary fill lookup rest memo

def applyAttribute (vocabulary : Vocabulary σ) (fill : String → EvalM σ String) (lookup : Lookup)
    (value : String) (position : Nat) :
    List (Attribute σ) → Memo → EvalM σ (Option Resolved × Memo)
  | [], memo => pure (none, memo)
  | handler :: rest, memo => do
    let act := handler.apply value lookup position (← EvalM.world)
    let (answer, memo) ← perform vocabulary fill lookup act memo
    match answer with
    | some resolved => return (some resolved, memo)
    | none => applyAttribute vocabulary fill lookup value position rest memo

/-- Applies attributes until every component is accounted for. Each one has to move on. -/
def applyAttributes (vocabulary : Vocabulary σ) (fill : String → EvalM σ String) (lookup : Lookup)
    (value : String) (position : Nat) (memo : Memo) : EvalM σ (Except Failure String) :=
  if lookup.size ≤ position then pure (.ok value)
  else do
    if ← EvalM.isCancelled then return .error .cancelled
    let (answer, memo) ←
      applyAttribute vocabulary fill lookup value position vocabulary.attributes memo
    match answer with
    | some next =>
      if position < next.position then
        applyAttributes vocabulary fill lookup next.value next.position memo
      else return .error (.unknownAttribute ((lookup.key? position).getD ""))
    | none => return .error (.unknownAttribute ((lookup.key? position).getD ""))
termination_by lookup.size - position

def resolveChain (vocabulary : Vocabulary σ) (fill : String → EvalM σ String) (lookup : Lookup) :
    EvalM σ (Except Failure String) :=
  if lookup.chain.components.isEmpty || Text.isBlankText lookup.chain.raw then
    pure (.error .empty)
  else do
    let (answer, memo) ← resolveBase vocabulary fill lookup vocabulary.resolvers []
    match answer with
    | none => return .error (.unrecognised ((lookup.key? 0).getD ""))
    | some resolved =>
      applyAttributes vocabulary fill lookup resolved.value resolved.position memo

/-- Puts pieces together. A cancelled filling ends before the next tag. -/
def renderPieces (resolve : Body → EvalM σ String) : List Piece → EvalM σ String
  | [] => pure ""
  | .literal text :: rest => do return text ++ (← renderPieces resolve rest)
  | .tag body :: rest => do
    if ← EvalM.isCancelled then return ""
    let value ← resolve body
    return value ++ (← renderPieces resolve rest)

def renderText (vocabulary : Vocabulary σ) (resolve : Body → EvalM σ String) (text : String) :
    EvalM σ String :=
  if mayHoldTags text then do
    renderPieces resolve (← vocabulary.readPieces text)
  else pure text

/-- How deep tags may stand in tags. -/
def depthLimit : Nat := 32

/-- The escaped value of a tag, `levels` more tags being allowed from here on, itself included. -/
def resolveBody (vocabulary : Vocabulary σ) (context : Context) (limit : Nat) :
    Nat → Body → EvalM σ String
  | 0, body => do
    vocabulary.reportError context
      s!"Tag <{unescape body.raw}> is nested deeper than {limit} levels."
    return nullText
  | levels + 1, body => do
    let fill := renderText vocabulary (resolveBody vocabulary context limit levels)
    let body' ← if body.dynamic then fill body.lookup else pure body.lookup
    let chain ← Vocabulary.readChain body'
    match ← resolveChain vocabulary fill ⟨chain, limit - levels, context⟩ with
    | .ok value => return escape value
    | .error failure =>
      match body.fallback with
      | some fallback =>
        vocabulary.remark .trace
          s!"Tag <{body.lookup}> failed ({failure.message}); using fallback."
        fill fallback
      | none =>
        vocabulary.reportError context
          s!"Tag <{unescape body.raw}> is invalid: {failure.message}"
        return nullText

def resolveTag (vocabulary : Vocabulary σ) (context : Context) (body : String) : EvalM σ String := do
  return unescape (← resolveBody vocabulary context depthLimit depthLimit (Body.ofText body))

def evaluatePieces (vocabulary : Vocabulary σ) (context : Context) (pieces : List Piece) :
    EvalM σ String := do
  return unescape (← renderPieces (resolveBody vocabulary context depthLimit depthLimit) pieces)

def evaluate (vocabulary : Vocabulary σ) (context : Context) (text : String) : EvalM σ String := do
  return unescape
    (← renderText vocabulary (resolveBody vocabulary context depthLimit depthLimit) text)

def underToken (cancelled : Bool) (filling : EvalM σ α) : EvalM σ α := do
  let outer := (← get).token
  modify ({ · with token := cancelled })
  let result ← filling
  modify ({ · with token := outer })
  return result

/-- Fills a text within the time limit. A filling that was cancelled gives `null`; the outermost one
says so. Within a limited filling the limit that is already running counts. A limit of no time at
all has run out from the start. -/
def evaluateBounded (vocabulary : Vocabulary σ) (context : Context) (text : String) :
    EvalM σ String :=
  match vocabulary.timeout with
  | none => evaluate vocabulary context text
  | some timeout =>
    if !mayHoldTags text then evaluate vocabulary context text
    else do
      if (← get).bound.isSome then
        let value ← evaluate vocabulary context text
        if ← EvalM.isCancelled then
          vocabulary.remark .debug s!"Nested tag fill of '{text}' ran past its deadline."
          return nullText
        return value
      else
        modify ({ · with bound := some (timeout.nanoseconds == 0) })
        let value ← evaluate vocabulary context text
        let cancelled ← EvalM.isCancelled
        modify ({ · with bound := none })
        if cancelled then
          vocabulary.reportError context
            s!"Filling tags in '{text}' took longer than {timeout.toMillis}ms and was abandoned."
          return nullText
        return value

/-- Fills the words of an entry; braces and what they hold stay as they are. -/
def fillArgumentsFrom (vocabulary : Vocabulary σ) (context : Context) (depth : Nat) :
    List String → EvalM σ (List String)
  | [] => pure []
  | word :: rest =>
    if word = openBrace then do
      return word :: (← fillArgumentsFrom vocabulary context (depth + 1) rest)
    else if word = closeBrace then do
      return word :: (← fillArgumentsFrom vocabulary context (depth - 1) rest)
    else if 0 < depth then do
      return word :: (← fillArgumentsFrom vocabulary context depth rest)
    else do
      let filled ← evaluateBounded vocabulary context word
      return filled :: (← fillArgumentsFrom vocabulary context depth rest)

def fillArguments (vocabulary : Vocabulary σ) (context : Context) (words : List String) :
    EvalM σ (List String) :=
  fillArgumentsFrom vocabulary context 0 words

def engineText (vocabulary : Vocabulary σ) (evaluation : Evaluation σ) : String :=
  Text.shownRecord "TagEngine"
    [("resolvers", Text.shownList (vocabulary.resolvers.map fun resolver =>
        Text.quoted resolver.name)),
      ("attributes", toString vocabulary.attributes.length),
      ("cached_templates", toString evaluation.pieces.size),
      ("timeout", Text.shownOption (vocabulary.timeout.map (·.text)))]

end TagScript.Tag
