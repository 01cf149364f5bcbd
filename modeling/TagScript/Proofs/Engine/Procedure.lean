import TagScript.Proofs.Engine.Failure
import TagScript.Proofs.Engine.Launch
import TagScript.Proofs.Queue.Fresh
import TagScript.Proofs.Tag.Listing
import TagScript.Proofs.Tag.Shortcut
import TagScript.Proofs.Tag.Wrapping

/-! Procedures that are called with a list of definitions of the caller. The list is filled and
unescaped before it is cut at its bars, so a value with a bar in it comes to more than one definition. -/

namespace TagScript

variable {η : Type}

theorem World.Remarked.trans {world between other : World η} (first : world.Remarked between)
    (second : between.Remarked other) : world.Remarked other := by
  obtain ⟨told, aside, rfl⟩ := first
  obtain ⟨more, asideToo, rfl⟩ := second
  refine ⟨more ++ told, fun event member => ?_, by simp⟩
  exact (List.mem_append.1 member).elim (asideToo event) (aside event)

structure Tag.Evaluation.Reads (start finish : Tag.Evaluation (World η)) : Prop where
  faithful : finish.Faithful
  token : finish.token = start.token
  bound : finish.bound = start.bound
  world : start.world.Remarked finish.world

namespace Tag.Evaluation.Reads

variable {start between finish : Tag.Evaluation (World η)}

theorem trans (first : start.Reads between) (second : between.Reads finish) : start.Reads finish :=
  ⟨second.faithful, second.token.trans first.token, second.bound.trans first.bound,
    first.world.trans second.world⟩

theorem isCancelled (reads : start.Reads finish) : finish.isCancelled = start.isCancelled := by
  rw [Evaluation.isCancelled, Evaluation.isCancelled, reads.token, reads.bound]

theorem queue (reads : start.Reads finish) (ref : QueueRef) :
    finish.world.queue ref = start.world.queue ref := by
  obtain ⟨_, _, same⟩ := reads.world
  rw [same]
  rfl

end Tag.Evaluation.Reads

/-! What the two tags do. -/

namespace Vocabulary

open Tag (Act Lookup)

theorem definition_resolve {lookup : Lookup} (named : lookup.keyIs 0 "def" = true)
    {caller : QueueRef} (own : lookup.context.queue = some caller) (world : World η) :
    definition.resolve lookup world = .bracket 0 world fun name world =>
      .done (name.bind fun name => ((world.queue caller).definition? name).map (⟨·, 1⟩)) world := by
  simp only [definition, named, ownQueue, own]
  change Act.bracket 0 world _ = _
  congr
  funext name world
  cases name with
  | none => rfl
  | some name =>
      conv_lhs => whnf
      rw [Option.bind_some]
      cases (world.queue caller).definition? name <;> rfl

def afterCall (script : String) (answer : Tag.CallResult) (world : World η) : World η :=
  let world := { world with calls := world.calls - 1 }
  match answer with
  | .ok _ => world
  | .error error => world.log .debug s!"proc[{script}] failed: {error.message}"

def firstOf (answer : Tag.CallResult) : Option String :=
  answer.toOption.join.bind (·.head?)

theorem callCounted_call (procedure : Tag.Procedure) {world : World η}
    (few : world.calls < callLimit) :
    callCounted procedure world =
      .call procedure { world with calls := world.calls + 1 } fun answer world =>
        .done answer.toOption.join (afterCall procedure.script answer world) := by
  unfold callCounted
  change (ite (callLimit ≤ world.calls) _ _ : Tag.Acting (World η) (Option (List String))) world = _
  rw [if_neg (Nat.not_le.2 few)]
  change Act.call procedure _ _ = _
  congr
  funext answer world
  cases answer <;> rfl

theorem procedure_resolve {lookup : Lookup} (named : lookup.keyIs 0 "proc" = true)
    (listed : lookup.keyIs 1 "context" = true) (attached : lookup.context.attached = true)
    (world : World η) :
    procedure.resolve lookup world = .bracket 0 world fun script world =>
      match script with
      | none => .done none world
      | some script => .bracket 1 world fun list world =>
        match list with
        | none => .done none world
        | some list =>
          (callCounted ⟨script, numbered (Text.cutAllText '|' list)⟩ world).andThen fun outcome =>
            pure ((outcome.bind (·.head?)).map (⟨·, 2⟩)) := by
  simp only [procedure, named, callValues, listed, attached]
  change Act.bracket 0 world _ = _
  congr
  funext script world
  cases script with
  | none => rfl
  | some script =>
      change Act.bracket 1 world _ = _
      congr
      funext list world
      cases list with
      | none => rfl
      | some list =>
          change (callCounted ⟨script, numbered (Text.cutAllText '|' list)⟩ world).andThen _ = _
          congr
          funext outcome world
          rcases outcome with _ | _ | ⟨value, others⟩ <;> rfl

end Vocabulary

namespace Tag

section

variable {vocabulary : Vocabulary (World η)} {fill : String → EvalM (World η) String}
  {start mid : Evaluation (World η)} {context : Context}

def Evaluation.calling (state : Evaluation (World η)) : Evaluation (World η) :=
  { state with world := { state.world with calls := state.world.calls + 1 } }

def given (answer : CallResult) : Except Failure String :=
  match TagScript.Vocabulary.firstOf answer with
  | some value => .ok value
  | none => .error (.unrecognised "proc")

def listed (list : String) : List (String × String) :=
  TagScript.Vocabulary.numbered (Text.cutAllText '|' list)

theorem resolveChain_definition {rest : List (Resolver (World η))}
    (resolvers : vocabulary.resolvers = TagScript.Vocabulary.definition :: rest) {raw : String}
    (unblank : Text.isBlankText raw = false) (depth : Nat) {name value : String}
    (plain : fill name = pure name) (unmarked : unescape name = name) {caller : QueueRef}
    (own : context.queue = some caller)
    (defined : (start.world.queue caller).definition? name = some value) :
    (resolveChain vocabulary fill ⟨⟨raw, [⟨"def", some name⟩]⟩, depth, context⟩).run start =
      some (.ok value, start) := by
  have named : Lookup.keyIs 0 "def" ⟨⟨raw, [⟨"def", some name⟩]⟩, depth, context⟩ = true := by
    rw [keyIs_first]
    decide
  rw [resolveChain, resolvers, resolveBase]
  simp only [List.isEmpty_cons, unblank, Bool.or_self, Bool.false_eq_true, ↓reduceIte,
    TagScript.Vocabulary.definition_resolve named own, perform, readBracket, Lookup.component?,
    List.getElem?_cons_zero, Option.bind_some, List.lookup_nil, plain, unmarked, pure_bind, bind_assoc]
  rw [EvalM.world_bind_setWorld, EvalM.run_world_bind, EvalM.run_setWorld_bind, defined]
  simp only [Option.map_some, Option.filter_some, Nat.lt_add_one, decide_true, ↓reduceIte, pure_bind]
  rw [applyAttributes, if_pos (by simp [Lookup.size])]
  rfl

theorem resolveBase_procedure (raw : String) (depth : Nat) (attached : context.attached = true)
    {script list filled : String} (plain : fill script = pure script)
    (unmarked : unescape script = script) (fills : (fill list).run start = some (filled, mid))
    (few : mid.world.calls < TagScript.Vocabulary.callLimit) :
    (resolveBase vocabulary fill
        ⟨⟨raw, [⟨"proc", some script⟩, ⟨"context", some list⟩]⟩, depth, context⟩
        TagScript.Vocabulary.resolvers []).run start = (do
      let answer ← vocabulary.call ⟨script, listed (unescape filled)⟩
      EvalM.modifyWorld (TagScript.Vocabulary.afterCall script answer)
      return ((TagScript.Vocabulary.firstOf answer).map fun value => (⟨value, 2⟩ : Resolved),
        [(1, unescape filled), (0, script)])).run mid.calling := by
  have isProc : Lookup.keyIs 0 "proc"
      ⟨⟨raw, [⟨"proc", some script⟩, ⟨"context", some list⟩]⟩, depth, context⟩ = true := by
    rw [keyIs_first]
    decide
  have isList : Lookup.keyIs 1 "context"
      ⟨⟨raw, [⟨"proc", some script⟩, ⟨"context", some list⟩]⟩, depth, context⟩ = true := by
    change Text.sameWord "context" "context" = true
    decide
  have others : Text.sameWord "proc" "def" = false ∧ Text.sameWord "proc" "" = false ∧
      Text.sameWord "proc" "queue" = false ∧ Text.sameWord "proc" "entry" = false ∧
      Text.sameWord "proc" "context" = false ∧ Text.sameWord "proc" "element" = false := by decide
  obtain ⟨notDef, notEmpty, notQueue, notEntry, notContext, notElement⟩ := others
  rw [TagScript.Vocabulary.resolvers, resolveBase_passed, resolveBase_passed, resolveBase_passed,
    resolveBase_passed, resolveBase_passed, resolveBase]
  · simp only [TagScript.Vocabulary.procedure_resolve isProc isList attached, perform, bind_assoc]
    rw [EvalM.world_bind_setWorld]
    simp only [readBracket, Lookup.component?, List.getElem?_cons_zero, Option.bind_some,
      List.lookup_nil, plain, unmarked, perform, pure_bind, bind_assoc]
    rw [EvalM.world_bind_setWorld]
    simp only [List.getElem?_cons_succ, List.getElem?_cons_zero, Option.bind_some, List.lookup_cons,
      List.lookup_nil, Nat.reduceBEq, pure_bind, bind_assoc]
    rw [EvalM.run_bind_of_run_some fills, EvalM.run_world_bind,
      TagScript.Vocabulary.callCounted_call _ few, Act.andThen, perform]
    simp only [bind_assoc]
    rw [EvalM.run_setWorld_bind]
    refine congrArg (fun next => (vocabulary.call ⟨script, listed (unescape filled)⟩ >>= next).run
      mid.calling) (funext fun answer => ?_)
    rcases answer with error | _ | _ | ⟨first, rest⟩ <;> rfl
  · intro world
    simp only [TagScript.Vocabulary.element, keyIs_first, notElement]
    rfl
  · intro world
    simp only [TagScript.Vocabulary.context, keyIs_first, notContext]
    rfl
  · intro world
    simp only [TagScript.Vocabulary.savedEntry, keyIs_first, notEntry]
    rfl
  · intro world
    simp only [TagScript.Vocabulary.queue, keyIs_first, notQueue]
    rfl
  · intro world
    simp only [TagScript.Vocabulary.definition, keyIs_first, notDef, notEmpty]
    rfl

theorem resolveChain_procedure (resolvers : vocabulary.resolvers = TagScript.Vocabulary.resolvers)
    {raw : String} (unblank : Text.isBlankText raw = false) (depth : Nat)
    (attached : context.attached = true) {script list filled : String}
    (plain : fill script = pure script) (unmarked : unescape script = script)
    (fills : (fill list).run start = some (filled, mid))
    (few : mid.world.calls < TagScript.Vocabulary.callLimit) :
    (resolveChain vocabulary fill
        ⟨⟨raw, [⟨"proc", some script⟩, ⟨"context", some list⟩]⟩, depth, context⟩).run start = (do
      let answer ← vocabulary.call ⟨script, listed (unescape filled)⟩
      EvalM.modifyWorld (TagScript.Vocabulary.afterCall script answer)
      return given answer).run mid.calling := by
  rw [resolveChain, resolvers]
  simp only [List.isEmpty_cons, unblank, Bool.or_self, Bool.false_eq_true, ↓reduceIte]
  rw [Engine.run_bind_congr (resolveBase_procedure raw depth attached plain unmarked fills few)]
  simp only [bind_assoc, pure_bind]
  refine congrArg (fun next => (vocabulary.call ⟨script, listed (unescape filled)⟩ >>= next).run
    mid.calling) (funext fun answer => congrArg (EvalM.modifyWorld _ >>= ·) (funext fun _ => ?_))
  unfold given
  cases TagScript.Vocabulary.firstOf answer with
  | none => rfl
  | some value =>
      rw [Option.map_some]
      dsimp only
      rw [applyAttributes, if_pos (by simp [Lookup.size])]

end

structure Verbatim (text : String) : Prop where
  bracketed : Bracketed text.toList
  bare : '\\' ∉ text.toList
  tagless : '<' ∉ text.toList
  unmarked : Unmarked text

theorem unmarked_of_all {text : String} (free : text.toList.all (fun c => !isStandIn c) = true) :
    Unmarked text := by
  simpa [Unmarked] using free

theorem unescape_of_unmarked {text : String} (unmarked : Unmarked text) : unescape text = text := by
  rw [unescape, List.map_congr_left fun c member => unescapeChar_of_unmarked (unmarked c member),
    List.map_id', String.ofList_toList]

theorem unescape_intercalate_escape {values : List String}
    (unmarked : ∀ value ∈ values, Unmarked value) :
    unescape (String.intercalate "|" (values.map escape)) = String.intercalate "|" values := by
  induction values with
  | nil => rfl
  | cons value rest ih =>
      obtain ⟨here, others⟩ := List.forall_mem_cons.1 unmarked
      cases rest with
      | nil => simpa using unescape_escape here
      | cons next rest =>
          have bar : unescape "|" = "|" := by decide
          simp only [List.map_cons, String.intercalate_cons_cons, unescape_append,
            unescape_escape here, bar] at ih ⊢
          rw [ih others]

def definitionBody (name : String) : String := linked [("def", name)]

def procedureBody (script : String) (names : List String) : String :=
  linked [("proc", script), ("context", tagList (names.map definitionBody))]

theorem linkable_definition {name : String} (verbatim : Verbatim name) :
    ∀ link ∈ [("def", name)], Linkable link := by
  intro link member
  obtain rfl := List.mem_singleton.1 member
  exact linkable_of_word (by decide) verbatim.bracketed verbatim.bare

theorem taggable_definition {name : String} (verbatim : Verbatim name) :
    Taggable (definitionBody name) :=
  taggable_linked (linkable_definition verbatim) fun _ => rfl

theorem tagList_bracketed {bodies : List String} (taggable : ∀ body ∈ bodies, Taggable body) :
    Bracketed (tagList bodies).toList ∧ '\\' ∉ (tagList bodies).toList := by
  have one {body : String} (taggable : Taggable body) {rest : List Char} (behind : Bracketed rest) :
      Bracketed ((angled body).toList ++ rest) := by
    simpa [angled] using Bracketed.angle taggable.bracketed behind
  induction bodies with
  | nil => exact ⟨.nil, by simp [tagList]⟩
  | cons body bodies ih =>
      obtain ⟨here, others⟩ := List.forall_mem_cons.1 taggable
      cases bodies with
      | nil => exact ⟨by simpa [tagList] using one here .nil, by simp [tagList, angled, here.bare]⟩
      | cons next bodies =>
          obtain ⟨bracketed, bare⟩ := ih others
          rw [tagList_cons, String.toList_append, String.toList_append, List.append_assoc]
          exact ⟨one here (.plain (by decide) bracketed), by simp [angled, here.bare, bare]⟩

theorem linkable_procedure {script : String} {names : List String} (verbatim : Verbatim script)
    (verbatims : ∀ name ∈ names, Verbatim name) :
    ∀ link ∈ [("proc", script), ("context", tagList (names.map definitionBody))], Linkable link := by
  have taggable : ∀ body ∈ names.map definitionBody, Taggable body := by
    simpa using fun name member => taggable_definition (verbatims name member)
  have list := tagList_bracketed taggable
  intro link member
  simp only [List.mem_cons, List.not_mem_nil, or_false] at member
  rcases member with rfl | rfl
  · exact linkable_of_word (by decide) verbatim.bracketed verbatim.bare
  · exact linkable_of_word (by decide) list.1 list.2

end Tag

/-! The definitions of the queue that is made. -/

theorem Text.lower_toString (number : Nat) : Text.lower (toString number) = toString number := by
  rw [Text.lower, Nat.toString_eq_ofList_toDigits, String.toList_ofList, Text.lowerFrom_digits]
  exact fun c member => Nat.isDigit_of_mem_toDigits (by decide) (by decide) member

namespace Vocabulary

theorem numbered_names (values : List String) :
    Table.names (numbered values) = (List.range' 1 values.length).map toString := by
  rw [numbered, Table.names, List.map_map, ← List.map_add_range' 0 values.length 1, ← List.zipIdx_map_snd,
    List.map_map, List.map_map]
  exact List.map_congr_left fun pair _ => by simp [Nat.add_comm]

theorem numbered_nodup (values : List String) : (Table.names (numbered values)).Nodup := by
  rw [numbered_names]
  exact List.Nodup.map (fun first second same => Nat.repr_injective same) List.nodup_range'

theorem numbered_lower {values : List String} {pair : String × String}
    (member : pair ∈ numbered values) : Text.lower pair.1 = pair.1 := by
  have name : pair.1 ∈ Table.names (numbered values) := List.mem_map_of_mem member
  rw [numbered_names] at name
  obtain ⟨number, _, same⟩ := List.mem_map.1 name
  rw [← same, Text.lower_toString]

theorem numbered_inj {values others : List String} :
    numbered values = numbered others ↔ values = others := by
  have told (values : List String) : (numbered values).map Prod.snd = values := by
    rw [numbered, List.map_map]
    exact List.zipIdx_map_fst 0 values
  constructor
  · intro same
    rw [← told values, same, told]
  · rintro rfl
    rfl

end Vocabulary

theorem Queue.foldl_define {pairs : List (String × String)} {queue : Queue}
    (lowered : ∀ pair ∈ pairs, Text.lower pair.1 = pair.1)
    (distinct : (Table.names (queue.definitions ++ pairs)).Nodup) :
    pairs.foldl (fun queue pair => queue.define pair.1 pair.2) queue =
      { queue with definitions := queue.definitions ++ pairs } := by
  induction pairs generalizing queue with
  | nil => rw [List.foldl_nil, List.append_nil]
  | cons pair pairs ih =>
      obtain ⟨here, others⟩ := List.forall_mem_cons.1 lowered
      have new : pair.1 ∉ Table.names queue.definitions := by
        rw [Table.names, List.map_append, List.map_cons, List.nodup_append] at distinct
        exact fun member => distinct.2.2 _ member _ List.mem_cons_self rfl
      have defined : queue.define pair.1 pair.2 =
          { queue with definitions := queue.definitions ++ [pair] } := by
        rw [Queue.define, here, Table.set_of_not_mem new]
      rw [List.foldl_cons, defined, ih others (by simpa using distinct)]
      simp

theorem Engine.equip_numbered (values : List String) (speed : Option Int) {queue : Queue}
    (bare : queue.definitions = []) :
    equip { speed, definitions := Vocabulary.numbered values } queue =
      { queue with definitions := Vocabulary.numbered values } := by
  have defined := Queue.foldl_define (fun _ => Vocabulary.numbered_lower)
    (by rw [bare, List.nil_append]; exact Vocabulary.numbered_nodup values)
  rw [bare, List.nil_append] at defined
  exact congrArg
    (fun later : Queue => { later with context := later.context, offMain := later.offMain }) defined

namespace Engine

open Tag (Body Chain Verbatim definitionBody procedureBody angled tagList)

variable {engine : Engine η} {fire : Firing η} {context : Tag.Context}
  {start : Tag.Evaluation (World η)}

/-! Reading and filling what leads up to the call. -/

theorem readPieces_reads (engine : Engine η) (fire : Firing η) (faithful : start.Faithful)
    (text : String) :
    ∃ finish, ((engine.vocabulary fire).readPieces text).run start =
      some (Tag.pieces text, finish) ∧ start.Reads finish := by
  obtain ⟨finish, read, faithfulToo, token, bound, world⟩ :=
    Tag.readPieces_run (engine.vocabulary fire) text faithful
  refine ⟨finish, read, faithfulToo, token, bound, ?_⟩
  rcases world with same | ⟨remark, told⟩
  · exact same ▸ .refl _
  · rw [told]
    exact (World.Remarked.refl _).emit rfl

theorem readChain_reads (faithful : start.Faithful) (body : String) :
    ∃ finish, (Tag.Vocabulary.readChain body : RunM η Chain).run start =
      some (Chain.parse body, finish) ∧ start.Reads finish := by
  obtain ⟨finish, read, faithfulToo, token, bound, world⟩ := Tag.readChain_run body faithful
  exact ⟨finish, read, faithfulToo, token, bound, world ▸ .refl _⟩

section

variable (builtin : engine.resolvers = Vocabulary.resolvers) {caller : QueueRef}
  (own : context.queue = some caller)

include builtin own

theorem resolveBody_definition (fire : Firing η) (limit levels : Nat) {name value : String}
    (verbatim : Verbatim name) (faithful : start.Faithful)
    (defined : (start.world.queue caller).definition? name = some value) :
    ∃ finish, (Tag.resolveBody (engine.vocabulary fire) context limit (levels + 1)
      (Body.ofText (definitionBody name))).run start = some (Tag.escape value, finish) ∧
        start.Reads finish := by
  obtain ⟨finish, read, reads⟩ := readChain_reads faithful (definitionBody name)
  have linkable := Tag.linkable_definition verbatim
  have parsed : Chain.parse (definitionBody name) =
      ⟨definitionBody name, [⟨"def", some name⟩]⟩ := Tag.parse_linked (by simp) linkable
  have unblank : Text.isBlankText (definitionBody name) = false := by
    rw [Text.isBlankText, definitionBody, Tag.toList_linked_cons]
    rfl
  have resolvers : (engine.vocabulary fire).resolvers =
      Vocabulary.definition :: Vocabulary.resolvers.tail := builtin
  rw [← reads.queue] at defined
  refine ⟨finish, ?_, reads⟩
  rw [definitionBody, Tag.bodyOf_linked linkable, Tag.resolveBody_static, ← definitionBody, Tag.EvalM.run_bind_of_run_some read, parsed,
    Tag.EvalM.run_bind_of_run_some (Tag.resolveChain_definition resolvers unblank _
      (Tag.renderText_of_not_mem _ _ verbatim.tagless) (Tag.unescape_of_unmarked verbatim.unmarked)
      own defined)]
  rfl

theorem renderPieces_tagList (fire : Firing η) (limit levels : Nat) {names values : List String}
    (filled : names ≠ []) (verbatims : ∀ name ∈ names, Verbatim name) (faithful : start.Faithful)
    (uncancelled : start.isCancelled = false)
    (defined : names.map (start.world.queue caller).definition? = values.map some) :
    ∃ finish, (Tag.renderPieces
      (Tag.resolveBody (engine.vocabulary fire) context limit (levels + 1))
      (Tag.pieces (tagList (names.map definitionBody)))).run start =
        some (String.intercalate "|" (values.map Tag.escape), finish) ∧ start.Reads finish := by
  induction names generalizing values start with
  | nil => exact absurd rfl filled
  | cons name names ih =>
      obtain ⟨verbatim, others⟩ := List.forall_mem_cons.1 verbatims
      cases values with
      | nil => simp at defined
      | cons value values =>
          simp only [List.map_cons, List.cons.injEq] at defined
          obtain ⟨here, there⟩ := defined
          obtain ⟨between, resolved, reads⟩ :=
            resolveBody_definition builtin own fire limit levels verbatim faithful here
          cases names with
          | nil =>
              obtain rfl : values = [] := by simpa using there.symm
              refine ⟨between, ?_, reads⟩
              rw [List.map_singleton, show tagList [definitionBody name] =
                  angled (definitionBody name) from String.intercalate_singleton,
                Tag.pieces_angled (Tag.taggable_definition verbatim), Tag.renderPieces_tag _ _ uncancelled,
                Tag.EvalM.run_bind_of_run_some resolved]
              simp [Tag.renderPieces]
          | cons next names =>
              cases values with
              | nil => simp at there
              | cons second values =>
                  have taggable : ∀ body ∈ definitionBody name :: definitionBody next ::
                      names.map definitionBody, Tag.Taggable body := by
                    simpa using fun name member => Tag.taggable_definition (verbatims name member)
                  have uncancelledToo : between.isCancelled = false := by
                    rw [reads.isCancelled, uncancelled]
                  obtain ⟨finish, rendered, readsOn⟩ := ih (by simp) others reads.faithful
                    uncancelledToo (by rwa [reads.queue])
                  refine ⟨finish, ?_, reads.trans readsOn⟩
                  rw [List.map_cons, List.map_cons, Tag.pieces_tagList taggable,
                    Tag.renderPieces_tag _ _ uncancelled, Tag.EvalM.run_bind_of_run_some resolved,
                    Tag.renderPieces, bind_assoc, ← List.map_cons,
                    Tag.EvalM.run_bind_of_run_some rendered]
                  simp [String.intercalate_cons_cons, String.append_assoc]

theorem renderText_tagList (fire : Firing η) (limit levels : Nat) {names values : List String}
    (filled : names ≠ []) (verbatims : ∀ name ∈ names, Verbatim name) (faithful : start.Faithful)
    (uncancelled : start.isCancelled = false)
    (defined : names.map (start.world.queue caller).definition? = values.map some) :
    ∃ finish, (Tag.renderText (engine.vocabulary fire)
      (Tag.resolveBody (engine.vocabulary fire) context limit (levels + 1))
      (tagList (names.map definitionBody))).run start =
        some (String.intercalate "|" (values.map Tag.escape), finish) ∧ start.Reads finish := by
  have tagged : Tag.mayHoldTags (tagList (names.map definitionBody)) = true := by
    rw [Tag.mayHoldTags_iff]
    obtain ⟨name, names, rfl⟩ := List.exists_cons_of_ne_nil filled
    cases names with
    | nil => simp [tagList, angled]
    | cons next names => simp [Tag.tagList_cons, angled]
  obtain ⟨between, read, reads⟩ := readPieces_reads engine fire faithful
    (tagList (names.map definitionBody))
  obtain ⟨finish, rendered, readsOn⟩ := renderPieces_tagList builtin own fire limit levels filled
    verbatims reads.faithful (by rw [reads.isCancelled, uncancelled]) (by rwa [reads.queue])
  refine ⟨finish, ?_, reads.trans readsOn⟩
  rw [Tag.renderText, if_pos tagged, Tag.EvalM.run_bind_of_run_some read, rendered]

end

/-- A tag can call a script with definitions of the caller: the script is registered, the names are
defined and can be written in a tag, and there is room for one more call. -/
structure Callable (context : Tag.Context) (caller : QueueRef) (start : Tag.Evaluation (World η))
    (name : String) (script : Script) (names values : List String) : Prop where
  own : context.queue = some caller
  attached : context.attached = true
  faithful : start.Faithful
  uncancelled : start.isCancelled = false
  few : start.world.calls < Vocabulary.callLimit
  verbatim : Verbatim name
  registered : start.world.script? name = some script
  filled : names ≠ []
  verbatims : ∀ name ∈ names, Verbatim name
  defined : names.map (start.world.queue caller).definition? = values.map some
  unmarked : ∀ value ∈ values, Tag.Unmarked value

def procedureValue (vocabulary : Tag.Vocabulary (World η)) (context : Tag.Context)
    (script body : String) (answer : Tag.CallResult) : RunM η String := do
  RunM.update (Vocabulary.afterCall script answer)
  match Tag.given answer with
  | .ok value => return Tag.unescape (Tag.escape value)
  | .error failure =>
    vocabulary.reportError context s!"Tag <{Tag.unescape body}> is invalid: {failure.message}"
    return nullText

theorem evaluate_procedure (builtin : engine.resolvers = Vocabulary.resolvers) (fire : Firing η)
    {caller : QueueRef} {name : String} {script : Script} {names values : List String}
    (callable : Callable context caller start name script names values) :
    ∃ mid, start.Reads mid ∧
      (Tag.evaluate (engine.vocabulary fire) context (angled (procedureBody name names))).run start =
        (do
          let answer ← callProcedure fire ⟨name, Tag.listed (String.intercalate "|" values)⟩
          procedureValue (engine.vocabulary fire) context name (procedureBody name names)
            answer).run mid.calling := by
  have linkable := Tag.linkable_procedure callable.verbatim callable.verbatims
  have taggable : Tag.Taggable (procedureBody name names) :=
    Tag.taggable_linked linkable fun _ => rfl
  have unblank : Text.isBlankText (procedureBody name names) = false := by
    rw [Text.isBlankText, procedureBody, Tag.toList_linked_cons]
    rfl
  have parsed : Chain.parse (procedureBody name names) = ⟨procedureBody name names,
      [⟨"proc", some name⟩, ⟨"context", some (tagList (names.map definitionBody))⟩]⟩ :=
    Tag.parse_linked (by simp) linkable
  obtain ⟨first, readPieces, reads⟩ := readPieces_reads engine fire callable.faithful
    (angled (procedureBody name names))
  obtain ⟨second, readChain, readsChain⟩ := readChain_reads reads.faithful (procedureBody name names)
  have readsToo := reads.trans readsChain
  -- The list is filled one level down, after the texts around it are read.
  obtain ⟨mid, fills, readsList⟩ := renderText_tagList builtin callable.own fire Tag.depthLimit 30
    callable.filled callable.verbatims readsToo.faithful
    (by rw [readsToo.isCancelled, callable.uncancelled])
    (by rw [readsToo.queue]; exact callable.defined)
  have readsAll := readsToo.trans readsList
  have few : mid.world.calls < Vocabulary.callLimit := by
    obtain ⟨_, _, same⟩ := readsAll.world
    rw [same]
    exact callable.few
  refine ⟨mid, readsAll, ?_⟩
  have body : Body.ofText (procedureBody name names) =
      ⟨procedureBody name names, procedureBody name names, none, false⟩ := Tag.bodyOf_linked linkable
  have resolves := Tag.resolveBody_static (engine.vocabulary fire) context Tag.depthLimit 31
    (procedureBody name names)
  rw [show 31 + 1 = Tag.depthLimit from rfl] at resolves
  rw [Tag.evaluate_angled _ _ taggable callable.faithful callable.uncancelled,
    Tag.EvalM.run_bind_of_run_some readPieces, body, resolves]
  simp only [bind_assoc]
  rw [Tag.EvalM.run_bind_of_run_some readChain, parsed,
    run_bind_congr (Tag.resolveChain_procedure builtin unblank _ callable.attached
      (Tag.renderText_of_not_mem _ _ callable.verbatim.tagless)
      (Tag.unescape_of_unmarked callable.verbatim.unmarked) fills few),
    Tag.unescape_intercalate_escape callable.unmarked]
  simp only [bind_assoc, pure_bind]
  refine congrArg (fun next => (callProcedure fire
    ⟨name, Tag.listed (String.intercalate "|" values)⟩ >>= next).run mid.calling)
      (funext fun answer => ?_)
  refine congrArg (RunM.update (Vocabulary.afterCall name answer) >>= ·) (funext fun _ => ?_)
  have kept : Tag.unescape nullText = nullText := by decide
  cases Tag.given answer with
  | ok value => rw [pure_bind]
  | error failure => simp only [bind_assoc, pure_bind, kept]

def procedureQueue (id : String) (fire : FireId) (definitions : Table String) (script : Script) :
    Queue :=
  (({ Queue.make id .instant fire with definitions }).addEntries
    (script.instantiate (some fire))).launch

theorem callProcedure_starts {name : String} {script : Script}
    (registered : start.world.script? name = some script) (budget : Nat) (values : List String) :
    ∃ (id : String) (fire : FireId) (launched : Tag.Evaluation (World η)),
      launched.world.queues = start.world.queues.push
        (procedureQueue id fire (Vocabulary.numbered values) script) ∧
      (callProcedure (engine.fire (budget + 1)) ⟨name, Vocabulary.numbered values⟩).run start = (do
        engine.setOff (engine.fire budget) budget ⟨start.world.queues.size⟩ .instant
        return .ok (← outcomeOf ⟨start.world.queues.size⟩ fire) : RunM η Tag.CallResult).run
          launched := by
  let options : FireOptions := { speed := some 0, definitions := Vocabulary.numbered values }
  have found : findScript (.named name) start.world = .ok script := by
    rw [findScript, registered]
  have nameless : options.id = none := rfl
  obtain ⟨seated, new, made, _⟩ := start.world.seat_nameless script nameless 0
  let id := (start.world.freshId (Text.lower script.name)).1
  let fire : FireId := ⟨seated.fires⟩
  let launched := (seated.handed ⟨start.world.queues.size⟩ script options).launch
    ⟨start.world.queues.size⟩
  refine ⟨id, fire, { start with world := launched }, ?_, ?_⟩
  · have bare : (Queue.make id .instant fire).definitions = [] := rfl
    have equipped := equip_numbered values (some 0) bare
    change ((seated.queues.modify _ _).modify _ _).modify _ _ = _
    rw [made, World.modify_made, World.modify_made, World.modify_made]
    exact congrArg (fun queue : Queue => start.world.queues.push
      (queue.addEntries (script.instantiate (some fire))).launch) equipped
  · rw [callProcedure, Engine.fire, run_bind_congr (fireWith_launches engine found new)]
    simp only [bind_assoc, pure_bind]
    rfl

theorem evaluate_procedure_starts (builtin : engine.resolvers = Vocabulary.resolvers) (budget : Nat)
    {caller : QueueRef} {name : String} {script : Script} {names values : List String}
    (callable : Callable context caller start name script names values) :
    ∃ (id : String) (fire : FireId) (launched : Tag.Evaluation (World η)),
      launched.world.queues = start.world.queues.push
        (procedureQueue id fire (Tag.listed (String.intercalate "|" values)) script) ∧
      (Tag.evaluate (engine.vocabulary (engine.fire (budget + 1))) context
        (angled (procedureBody name names))).run start = (do
          engine.setOff (engine.fire budget) budget ⟨start.world.queues.size⟩ .instant
          let outcome ← outcomeOf ⟨start.world.queues.size⟩ fire
          procedureValue (engine.vocabulary (engine.fire (budget + 1))) context name
            (procedureBody name names) (.ok outcome)).run launched := by
  obtain ⟨mid, reads, evaluated⟩ :=
    evaluate_procedure builtin (engine.fire (budget + 1)) callable
  obtain ⟨_, _, same⟩ := reads.world
  have found : mid.calling.world.script? name = some script := by
    rw [Tag.Evaluation.calling, same]
    exact callable.registered
  have queues : mid.calling.world.queues = start.world.queues := by
    rw [Tag.Evaluation.calling, same]
  obtain ⟨id, fire, launched, made, started⟩ := callProcedure_starts found budget
    (Text.cutAllText '|' (String.intercalate "|" values))
  rw [queues] at made started
  refine ⟨id, fire, launched, made, ?_⟩
  rw [evaluated, Tag.listed, run_bind_congr started]
  simp only [bind_assoc, pure_bind]

/-- Filling a tag that calls a script with a list of definitions sets off a queue that is made for the
call. The definitions of that queue are just the values of the list, by their numbers, if none of the
values holds a bar, and others if one does. -/
theorem procedure_binds_values_iff (builtin : engine.resolvers = Vocabulary.resolvers) (budget : Nat)
    {caller : QueueRef} {name : String} {script : Script} {names values : List String}
    (callable : Callable context caller start name script names values) :
    ∃ (id : String) (fire : FireId) (definitions : Table String)
        (launched : Tag.Evaluation (World η)),
      launched.world.queues =
        start.world.queues.push (procedureQueue id fire definitions script) ∧
      (Tag.evaluate (engine.vocabulary (engine.fire (budget + 1))) context
        (angled (procedureBody name names))).run start = (do
          engine.setOff (engine.fire budget) budget ⟨start.world.queues.size⟩ .instant
          let outcome ← outcomeOf ⟨start.world.queues.size⟩ fire
          procedureValue (engine.vocabulary (engine.fire (budget + 1))) context name
            (procedureBody name names) (.ok outcome)).run launched ∧
      (definitions = Vocabulary.numbered values ↔ ∀ value ∈ values, '|' ∉ value.toList) := by
  obtain ⟨id, fire, launched, made, started⟩ := evaluate_procedure_starts builtin budget callable
  have listed : values ≠ [] := by
    rintro rfl
    exact callable.filled (by simpa using callable.defined)
  refine ⟨id, fire, _, launched, made, started, ?_⟩
  rw [Tag.listed, Vocabulary.numbered_inj]
  exact Text.cutAllText_intercalate_iff listed

def handBack : Script where
  name := "p"
  entries := [.ofCommand "determine" ["<def[1]>"]]

def lending (value : String) : Tag.Evaluation (World Unit) :=
  let fresh := (Engine.builtin {} : Engine Unit).start ()
  let (ref, world) := (fresh.world.registerScript handBack).makeQueue "q" .instant
  { fresh with world := world.modifyQueue ref (Queue.define "x" value) }

theorem verbatim_of_word {text : String}
    (word : text.toList.all (fun c => decide (c ∉ ['<', '>', '[', ']', '\\'])) = true)
    (unmarked : Tag.Unmarked text) : Verbatim text where
  bracketed := .of_plain fun c member => by
    have free := Tag.free_of_all word c member
    simp_all
  bare := fun member => absurd (Tag.free_of_all word _ member) (by decide)
  tagless := fun member => absurd (Tag.free_of_all word _ member) (by decide)
  unmarked := unmarked

theorem lending_callable {value : String} (unmarked : Tag.Unmarked value) :
    Callable { queue := some ⟨0⟩ } ⟨0⟩ (lending value) "p" handBack ["x"] [value] where
  own := rfl
  attached := rfl
  faithful := ⟨.empty _, .empty _⟩
  uncancelled := rfl
  few := (by decide : 0 < Vocabulary.callLimit)
  verbatim := verbatim_of_word (by decide) (Tag.unmarked_of_all (by decide))
  registered := rfl
  filled := by simp
  verbatims := List.forall_mem_singleton.2
    (verbatim_of_word (by decide) (Tag.unmarked_of_all (by decide)))
  defined := rfl
  unmarked := List.forall_mem_singleton.2 unmarked

theorem handBack_tag : angled (procedureBody "p" ["x"]) = "<proc[p].context[<def[x]>]>" := by
  decide

theorem procedure_binds_values_iff_semicolon :
    ∃ (id : String) (fire : FireId) (launched : Tag.Evaluation (World Unit)),
      launched.world.queues = (lending "a;<b>").world.queues.push
        (procedureQueue id fire [("1", "a;<b>")] handBack) ∧
      (Tag.evaluate ((builtin {}).vocabulary ((builtin {}).fire 2)) { queue := some ⟨0⟩ }
        "<proc[p].context[<def[x]>]>").run (lending "a;<b>") = (do
          (builtin {}).setOff ((builtin {}).fire 1) 1 ⟨1⟩ .instant
          let outcome ← outcomeOf ⟨1⟩ fire
          procedureValue ((builtin {}).vocabulary ((builtin {}).fire 2)) { queue := some ⟨0⟩ } "p"
            (procedureBody "p" ["x"]) (.ok outcome)).run launched := by
  have unmarked : Tag.Unmarked "a;<b>" := Tag.unmarked_of_all (by decide)
  have callable := lending_callable unmarked
  have builtins : (builtin {} : Engine Unit).resolvers = Vocabulary.resolvers := rfl
  obtain ⟨id, fire, definitions, launched, made, started, whole⟩ :=
    procedure_binds_values_iff builtins 1 callable
  obtain rfl := whole.2 (by decide)
  rw [handBack_tag] at started
  exact ⟨id, fire, launched, made, started⟩

/-- A value with a bar in it comes to two definitions, and the first is not the value. -/
theorem procedure_splits_value :
    ∃ (id : String) (fire : FireId) (launched : Tag.Evaluation (World Unit)),
      ((lending "a|b").world.queue ⟨0⟩).definition? "x" = some "a|b" ∧
      launched.world.queues = (lending "a|b").world.queues.push
        (procedureQueue id fire [("1", "a"), ("2", "b")] handBack) ∧
      (Tag.evaluate ((builtin {}).vocabulary ((builtin {}).fire 2)) { queue := some ⟨0⟩ }
        "<proc[p].context[<def[x]>]>").run (lending "a|b") = (do
          (builtin {}).setOff ((builtin {}).fire 1) 1 ⟨1⟩ .instant
          let outcome ← outcomeOf ⟨1⟩ fire
          procedureValue ((builtin {}).vocabulary ((builtin {}).fire 2)) { queue := some ⟨0⟩ } "p"
            (procedureBody "p" ["x"]) (.ok outcome)).run launched ∧
      [("1", "a"), ("2", "b")] ≠ Vocabulary.numbered ["a|b"] := by
  have unmarked : Tag.Unmarked "a|b" := Tag.unmarked_of_all (by decide)
  have callable := lending_callable unmarked
  have builtins : (builtin {} : Engine Unit).resolvers = Vocabulary.resolvers := rfl
  obtain ⟨id, fire, launched, made, started⟩ := evaluate_procedure_starts builtins 1 callable
  have cut : Tag.listed (String.intercalate "|" ["a|b"]) = [("1", "a"), ("2", "b")] := by
    decide
  rw [cut] at made
  rw [handBack_tag] at started
  exact ⟨id, fire, launched, rfl, made, started, by decide⟩

end Engine

end TagScript
