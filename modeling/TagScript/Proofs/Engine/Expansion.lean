import TagScript.Proofs.Engine.ExecutePassage

/-! What a loop and an injection stand for, told from their filled words alone. A loop stands for its
passes, which are counted from one on, and an injection for the entries of its script. Their commands put
just these in front of what waits on the queue. -/

namespace TagScript

variable {η : Type}

/-! Numbers as words. -/

theorem isDigit_of_mem_toString {number : Nat} :
    ∀ c ∈ (toString number).toList, c.isDigit = true := by
  rw [Nat.toString_eq_ofList_toDigits, String.toList_ofList]
  exact fun c member => Nat.isDigit_of_mem_toDigits (by decide) (by decide) member

theorem not_mem_of_digits {text : String} (digits : ∀ c ∈ text.toList, c.isDigit = true) {c : Char}
    (other : c.isDigit = false) : c ∉ text.toList := by
  intro member
  rw [digits c member] at other
  cases other

namespace Number

theorem count?_toString {number : Nat} (small : number ≤ maxCount) :
    count? (toString number) = some number := by
  have digits : ∀ c ∈ (toString number).toList, c.isDigit = true := isDigit_of_mem_toString
  have unsigned : '+' ∉ (toString number).toList := not_mem_of_digits digits (by decide)
  have shown : (toString number).toList = Nat.toDigits 10 number := by
    rw [Nat.toString_eq_ofList_toDigits, String.toList_ofList]
  have value : ofDigits (Nat.toDigits 10 number) = number := Nat.ofDigitChars_ten_toDigits
  have read : digits? (toString number).toList = some number := by
    rw [digits?, if_neg, shown, value]
    simp only [Bool.or_eq_true, List.isEmpty_iff, Bool.not_eq_true', not_or, Bool.not_eq_false]
    exact ⟨by simp, List.all_eq_true.2 digits⟩
  unfold count?
  split
  · rename_i rest signed
    rw [signed] at unsigned
    exact absurd List.mem_cons_self unsigned
  · dsimp only
    rw [read]
    simp [small]

theorem le_maxCount {text : String} {number : Nat} (read : count? text = some number) :
    number ≤ maxCount := by
  have small := (Option.filter_eq_some_iff.1 read).2
  simpa using small

end Number

namespace Command

def counter (parent : Entry) (name : String) (number : Nat) : Entry where
  command := "define"
  arguments := [name, toString number]
  waits := false
  script := parent.script
  fire := parent.fire

def repeated (parent entry : Entry) : Entry :=
  { entry with script := parent.script <|> entry.script, fire := parent.fire }

/-- So many passes of a loop, from the one with this number on. -/
def passesFrom (parent : Entry) (name : String) (block : List Entry) (number : Nat) :
    Nat → List Entry
  | 0 => []
  | times + 1 => counter parent name number :: (block.map (repeated parent) ++
      passesFrom parent name block (number + 1) times)

theorem inheritOrigin_counter (parent : Entry) (name : String) (number : Nat) :
    inheritOrigin parent (.ofCommand "define" [name, toString number]) = counter parent name number := by
  obtain ⟨command, arguments, waits, script, fire⟩ := parent
  cases script <;> rfl

theorem passes_eq (parent : Entry) (name : String) (block : List Entry) (times : Nat) :
    (passes name block times).map (inheritOrigin parent) = passesFrom parent name block 1 times := by
  have shifted (number : Nat) :
      ((List.range' number times).flatMap fun index =>
        Entry.ofCommand "define" [name, toString (index + 1)] :: block).map (inheritOrigin parent) =
          passesFrom parent name block (number + 1) times := by
    induction times generalizing number with
    | zero => rfl
    | succ times ih =>
        rw [List.range'_succ, List.flatMap_cons, List.map_append, ih, List.map_cons, passesFrom,
          List.cons_append, inheritOrigin_counter]
        rfl
  rw [passes, List.range_eq_range', shifted]

theorem mem_passesFrom {parent item : Entry} {name : String} {block : List Entry} {number times : Nat}
    (member : item ∈ passesFrom parent name block number times) :
    (∃ number, item = counter parent name number) ∨ ∃ source ∈ block, item = repeated parent source := by
  induction times generalizing number with
  | zero => exact absurd member List.not_mem_nil
  | succ times ih =>
      rw [passesFrom, List.mem_cons, List.mem_append, List.mem_map] at member
      rcases member with rfl | ⟨source, inBlock, rfl⟩ | later
      · exact .inl ⟨number, rfl⟩
      · exact .inr ⟨source, inBlock, rfl⟩
      · exact ih later

end Command

open Command (passesFrom)

def Script.issue (script : Script) (fire : Option FireId) (entry : Entry) : Entry :=
  { entry with script := some script.name, fire }

theorem Script.instantiate_eq (script : Script) (fire : Option FireId) :
    script.instantiate fire = script.entries.map (script.issue fire) := rfl

def Engine.loopName (arguments : Arguments) : String :=
  ((arguments.positional? 0).2.prefixed? "as").1.getD "value"

namespace Host

/-- The entries that a filled loop stands for. -/
def loopEntries (host : Host) (entry : Entry) : List Entry :=
  match Engine.blocksOfFilled entry.arguments with
  | .ok (block :: _) =>
    let sorted := Arguments.ofFilled ["as", Engine.saveWord] entry.arguments
    let arguments := host.unclaimed entry (sorted.takePrefixed Engine.saveWord).2
    let times := ((arguments.positional? 0).1.bind Number.count?).getD 0
    passesFrom entry (Engine.loopName arguments) block.entries 1 times
  | _ => []

/-- The entries that a filled injection stands for where these scripts are known. -/
def injectedEntries (host : Host) (scripts : Table Script) (entry : Entry) : List Entry :=
  match scripts.get? (Text.lower (host.injectedName entry)) with
  | none => []
  | some script => script.entries.map (script.issue entry.fire)

theorem mem_loopEntries {host : Host} {entry item : Entry} (member : item ∈ host.loopEntries entry) :
    (∃ name number, item = Command.counter entry name number) ∨
      ∃ blocks, Engine.blocksOfFilled entry.arguments = .ok blocks ∧
        ∃ block ∈ blocks, ∃ source ∈ block.entries, item = Command.repeated entry source := by
  unfold loopEntries at member
  split at member
  · rename_i block others built
    rcases Command.mem_passesFrom member with ⟨number, same⟩ | ⟨source, inBlock, same⟩
    · exact .inl ⟨_, number, same⟩
    · exact .inr ⟨_, built, block, List.mem_cons_self, source, inBlock, same⟩
  · exact absurd member List.not_mem_nil

end Host

namespace Command

variable {invocation bound : Invocation} {arguments rest : Arguments}

theorem repeatBlock_bind_eq_ok
    (isBound : (repeatBlock : Command η).bind invocation arguments = .ok (bound, rest)) :
    ∃ times block others, (arguments.positional? 0).1.bind Number.count? = some times ∧
      invocation.blocks = block :: others ∧
      bound = (invocation.setObject "times" (toString times)).setObject "as"
        (Engine.loopName arguments) := by
  unfold repeatBlock at isBound
  dsimp only at isBound
  split at isBound
  · cases isBound
  · rename_i times counted
    split at isBound
    · cases isBound
    · rename_i braced
      obtain ⟨rfl, _⟩ := Prod.mk.inj (Except.ok.inj isBound)
      obtain ⟨block, others, blocks⟩ := List.exists_cons_of_ne_nil (mt List.isEmpty_iff.2 braced)
      refine ⟨times, block, others, ?_, blocks, rfl⟩
      cases first : (arguments.positional? 0).1 with
      | none =>
          have none_read : Number.count? "" = none := by decide
          rw [first] at counted
          exact absurd (none_read.symm.trans counted) nofun
      | some raw => rwa [first] at counted

theorem repeatBlock_bind_of_count {block : Block} {others : List Block} {times : Nat}
    (blocks : invocation.blocks = block :: others)
    (counted : (arguments.positional? 0).1.bind Number.count? = some times) :
    ∃ unread, (repeatBlock : Command η).bind invocation arguments =
      .ok ((invocation.setObject "times" (toString times)).setObject "as" (Engine.loopName arguments),
        unread) := by
  obtain ⟨raw, first, count⟩ := Option.bind_eq_some_iff.1 counted
  have read : Number.count? ((arguments.positional? 0).1.getD "") = some times := by
    rw [first, Option.getD_some, count]
  unfold repeatBlock
  dsimp only
  rw [read, blocks]
  exact ⟨_, rfl⟩

end Command

namespace Engine

theorem repeatBlock_execute {invocation : Invocation} {block : Block} {others : List Block}
    {times : Nat} (blocks : invocation.blocks = block :: others) (small : times ≤ Number.maxCount)
    (host : Host) (fire : Firing η) (ref : QueueRef) (name : String) :
    let bound := (invocation.setObject "times" (toString times)).setObject "as" name
    (Command.repeatBlock : Command η).execute ⟨host, fire, ref⟩ bound = (do
      RunM.modifyQueue ref
        (Queue.injectEntries 0 (passesFrom invocation.entry name block.entries 1 times))
      return .ok bound) := by
  intro bound
  have named : bound.objectD "as" "value" = name := by
    rw [Invocation.objectD, Invocation.object?]
    exact congrArg (Option.getD · "value") (Table.get?_set _ _ _)
  have apart : "times" ≠ "as" := by decide
  have known : bound.object? "times" = some (toString times) :=
    (Table.get?_set_of_ne apart _ _).trans (Table.get?_set _ _ _)
  have same : bound.blocks = block :: others := blocks
  unfold Command.repeatBlock
  dsimp only
  rw [same, named, known, Option.bind_some, Number.count?_toString small, Option.getD_some,
    ← Command.passes_eq]
  rfl

/-- A loop splices in what it stands for. -/
theorem repeatBlock_splices {invocation bound : Invocation} {rest : Arguments} {host : Host}
    (built : blocksOfFilled invocation.entry.arguments = .ok invocation.blocks)
    (isBound : (Command.repeatBlock : Command η).bind invocation
      (host.argumentsOf (.repeatBlock : Command η) invocation.entry) = .ok (bound, rest))
    (fire : Firing η) (ref : QueueRef) :
    (Command.repeatBlock : Command η).execute ⟨host, fire, ref⟩ bound = (do
      RunM.modifyQueue ref (Queue.injectEntries 0 (host.loopEntries invocation.entry))
      return .ok bound) := by
  obtain ⟨times, block, others, counted, blocks, rfl⟩ := Command.repeatBlock_bind_eq_ok isBound
  obtain ⟨raw, _, read⟩ := Option.bind_eq_some_iff.1 counted
  have stands : host.loopEntries invocation.entry = passesFrom invocation.entry (loopName
      (host.argumentsOf (.repeatBlock : Command η) invocation.entry)) block.entries 1 times := by
    rw [Host.loopEntries, built, blocks]
    exact congrArg (fun count : Option Nat => passesFrom invocation.entry (loopName
      (host.argumentsOf (.repeatBlock : Command η) invocation.entry)) block.entries 1 (count.getD 0))
      counted
  rw [repeatBlock_execute blocks (Number.le_maxCount read), stands]

end Engine

end TagScript
