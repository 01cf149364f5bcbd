import Mathlib.Algebra.BigOperators.Ring.List
import Mathlib.Algebra.Ring.Int.Defs
import Mathlib.Data.List.Nodup
import TagScript.Proofs.Tag.Account
import TagScript.Proofs.Tag.Parallel
import TagScript.Proofs.Tag.Yield

/-! What a chain asks for while it is looked up. Its resolvers and attributes together are one act
that is carried out with one memory for brackets, so each bracket is filled when it is first asked
for, and only then: every later question gets the same answer, and what nobody asks for is never
filled. -/

namespace TagScript.Tag

variable {σ α β : Type}

/-! The whole of a lookup as one act. -/

section

variable (vocabulary : Vocabulary σ) (fill : String → EvalM σ String) (lookup : Lookup)

def inquireBase : List (Resolver σ) → Acting σ (Option Resolved)
  | [] => pure none
  | resolver :: rest => do
    match (← (resolver.resolve lookup).run).filter (0 < ·.position) with
    | some resolved => return some resolved
    | none => inquireBase rest

def inquireAttribute (value : String) (position : Nat) :
    List (Attribute σ) → Acting σ (Option Resolved)
  | [] => pure none
  | handler :: rest => do
    match ← (handler.apply value lookup position).run with
    | some resolved => return some resolved
    | none => inquireAttribute value position rest

def inquireAttributes (value : String) (position : Nat) : Acting σ (Except Failure String) :=
  if lookup.size ≤ position then pure (.ok value)
  else do
    if ← Acting.isCancelled then return .error .cancelled
    match ← inquireAttribute lookup value position vocabulary.attributes with
    | some next =>
      if position < next.position then inquireAttributes next.value next.position
      else return .error (.unknownAttribute ((lookup.key? position).getD ""))
    | none => return .error (.unknownAttribute ((lookup.key? position).getD ""))
termination_by lookup.size - position

def inquire : Acting σ (Except Failure String) :=
  if lookup.chain.components.isEmpty || Text.isBlankText lookup.chain.raw then pure (.error .empty)
  else do
    match ← inquireBase lookup vocabulary.resolvers with
    | none => return .error (.unrecognised ((lookup.key? 0).getD ""))
    | some resolved => inquireAttributes vocabulary lookup resolved.value resolved.position

theorem ask_pure (result : α) (memo : Memo) :
    ask vocabulary fill lookup (pure result) memo = pure (result, memo) := rfl

theorem ask_isCancelled (memo : Memo) :
    ask vocabulary fill lookup Acting.isCancelled memo = (do
      return (← EvalM.isCancelled, memo)) := rfl

theorem resolveBase_eq_ask (resolvers : List (Resolver σ)) (memo : Memo) :
    resolveBase vocabulary fill lookup resolvers memo =
      ask vocabulary fill lookup (inquireBase lookup resolvers) memo := by
  induction resolvers generalizing memo with
  | nil => rfl
  | cons resolver rest ih =>
      rw [resolveBase_cons, inquireBase, ask_bind]
      congr 1
      refine funext ?_
      rintro ⟨answer, memo⟩
      dsimp only
      cases answer.filter (0 < ·.position) with
      | some resolved => rfl
      | none => exact ih memo

theorem applyAttribute_eq_ask (value : String) (position : Nat) (handlers : List (Attribute σ))
    (memo : Memo) :
    applyAttribute vocabulary fill lookup value position handlers memo =
      ask vocabulary fill lookup (inquireAttribute lookup value position handlers) memo := by
  induction handlers generalizing memo with
  | nil => rfl
  | cons handler rest ih =>
      rw [applyAttribute_cons, inquireAttribute, ask_bind]
      congr 1
      refine funext ?_
      rintro ⟨answer, memo⟩
      cases answer with
      | some resolved => rfl
      | none => exact ih memo

theorem applyAttributes_eq_ask (value : String) (position : Nat) (memo : Memo) :
    applyAttributes vocabulary fill lookup value position memo = (do
      let (outcome, _) ←
        ask vocabulary fill lookup (inquireAttributes vocabulary lookup value position) memo
      return outcome) := by
  fun_induction applyAttributes vocabulary fill lookup value position memo with
  | case1 value position memo complete =>
      rw [inquireAttributes, if_pos complete, ask_pure, pure_bind]
  | case2 value position memo incomplete ih =>
      rw [inquireAttributes, if_neg incomplete, ask_bind, ask_isCancelled]
      simp only [bind_assoc, pure_bind]
      congr 1
      funext cancelled
      cases cancelled with
      | true => rfl
      | false =>
          simp only [Bool.false_eq_true, ↓reduceIte]
          rw [ask_bind, applyAttribute_eq_ask, bind_assoc]
          congr 1
          refine funext ?_
          rintro ⟨answer, memo⟩
          cases answer with
          | none => rfl
          | some next =>
              dsimp only
              split
              · rename_i moved
                exact ih memo next moved
              · rfl

theorem resolveChain_eq_ask :
    resolveChain vocabulary fill lookup = (do
      let (outcome, _) ← ask vocabulary fill lookup (inquire vocabulary lookup) []
      return outcome) := by
  unfold resolveChain inquire
  split
  · rfl
  · rw [ask_bind, resolveBase_eq_ask, bind_assoc]
    congr 1
    refine funext ?_
    rintro ⟨answer, memo⟩
    cases answer with
    | none => rfl
    | some resolved => exact applyAttributes_eq_ask vocabulary fill lookup _ _ memo

end

namespace Lookup

def bracket? (position : Nat) (lookup : Lookup) : Option String :=
  (lookup.component? position).bind (·.context)

end Lookup

/-! An act with a record of what is asked of the evaluator and what it does to answer. -/

structure Filling (σ : Type) where
  position : Nat
  raw : String
  start : Evaluation σ

inductive Consultation (σ : Type) where
  | asked (position : Nat)
  | filled (filling : Filling σ)
  | answered (position : Nat) (answer : Option String)
  | called (procedure : Procedure) (start : Evaluation σ)

abbrev Consulted (σ α : Type) := List (Consultation σ) × Option (α × Evaluation σ)

def Consulted.andThen (consulted : Consulted σ α) (next : α → Evaluation σ → Consulted σ β) :
    Consulted σ β :=
  match consulted with
  | (log, none) => (log, none)
  | (log, some (result, later)) =>
    let rest := next result later
    (log ++ rest.1, rest.2)

def consultBracket (fill : String → EvalM σ String) (lookup : Lookup) (memo : Memo)
    (position : Nat) (state : Evaluation σ) : Consulted σ (Option String × Memo) :=
  match lookup.bracket? position with
  | none => ([.asked position, .answered position none], some ((none, memo), state))
  | some raw =>
    match memo.lookup position with
    | some text =>
      ([.asked position, .answered position (some text)], some ((some text, memo), state))
    | none =>
      match (fill raw).run state with
      | none => ([.asked position, .filled ⟨position, raw, state⟩], none)
      | some (rendered, later) =>
        let text := unescape rendered
        ([.asked position, .filled ⟨position, raw, state⟩, .answered position (some text)],
          some ((some text, (position, text) :: memo), later))

def consult (vocabulary : Vocabulary σ) (fill : String → EvalM σ String) (lookup : Lookup) :
    Act σ α → Memo → Evaluation σ → Consulted σ (α × Memo)
  | .done result world, memo, state => ([], some ((result, memo), { state with world }))
  | .bracket position world resume, memo, state =>
    (consultBracket fill lookup memo position { state with world }).andThen fun reading later =>
      consult vocabulary fill lookup (resume reading.1 later.world) reading.2 later
  | .call procedure world resume, memo, state =>
    Consulted.andThen
      ([.called procedure { state with world }],
        (vocabulary.call procedure).run { state with world })
      fun answer later => consult vocabulary fill lookup (resume answer later.world) memo later
  | .cancel world resume, memo, state =>
    consult vocabulary fill lookup (resume world) memo (Evaluation.cancel { state with world })
  | .isCancelled world resume, memo, state =>
    consult vocabulary fill lookup (resume state.isCancelled world) memo { state with world }

section

variable {vocabulary : Vocabulary σ} {fill : String → EvalM σ String} {lookup : Lookup}

theorem Consulted.andThen_snd (consulted : Consulted σ α)
    (next : α → Evaluation σ → Consulted σ β) :
    (consulted.andThen next).2 = consulted.2.bind fun outcome => (next outcome.1 outcome.2).2 := by
  obtain ⟨log, _ | ⟨result, later⟩⟩ := consulted <;> rfl

theorem consultBracket_snd (memo : Memo) (position : Nat) (state : Evaluation σ) :
    (consultBracket fill lookup memo position state).2 =
      (readBracket fill lookup memo position).run state := by
  unfold consultBracket readBracket
  rw [← Lookup.bracket?]
  cases lookup.bracket? position with
  | none => rfl
  | some raw =>
      dsimp only
      cases memo.lookup position with
      | some text => rfl
      | none =>
          dsimp only
          rw [StateT.run_bind]
          cases (fill raw).run state <;> rfl

theorem consult_snd (act : Act σ α) (memo : Memo) (state : Evaluation σ) :
    (consult vocabulary fill lookup act memo state).2 =
      (perform vocabulary fill lookup act memo).run state := by
  induction act generalizing memo state with
  | done result world => rfl
  | bracket position world resume ih =>
      rw [consult, perform, EvalM.run_setWorld_bind, StateT.run_bind, Consulted.andThen_snd,
        consultBracket_snd]
      congr 1
      refine funext ?_
      rintro ⟨⟨answer, memo⟩, later⟩
      exact ih answer later.world memo later
  | call procedure world resume ih =>
      rw [consult, perform, EvalM.run_setWorld_bind, StateT.run_bind, Consulted.andThen_snd]
      congr 1
      refine funext ?_
      rintro ⟨answer, later⟩
      exact ih answer later.world memo later
  | cancel world resume ih =>
      rw [consult, perform, EvalM.run_setWorld_bind, EvalM.run_cancel_bind]
      exact ih world memo _
  | isCancelled world resume ih =>
      rw [consult, perform, EvalM.run_setWorld_bind, EvalM.run_isCancelled_bind]
      exact ih _ world memo _

end

def fillings (log : List (Consultation σ)) : List (Filling σ) :=
  log.filterMap fun
    | .filled filling => some filling
    | _ => none

theorem mem_fillings {log : List (Consultation σ)} {filling : Filling σ} :
    filling ∈ fillings log ↔ .filled filling ∈ log := by
  unfold fillings
  rw [List.mem_filterMap]
  constructor
  · rintro ⟨consultation, member, same⟩
    cases consultation with
    | filled other =>
        obtain rfl := Option.some.inj same
        exact member
    | asked _ | answered _ _ | called _ _ => simp at same
  · intro member
    exact ⟨_, member, rfl⟩

def Filling.CameTo (fill : String → EvalM σ String) (filling : Filling σ) (text : String) : Prop :=
  ∃ rendered later, (fill filling.raw).run filling.start = some (rendered, later) ∧
    text = unescape rendered

/-- A record in which brackets are filled as they are needed, those in `memo` being filled already. -/
structure Needed (fill : String → EvalM σ String) (lookup : Lookup) (memo : Memo)
    (log : List (Consultation σ)) : Prop where
  once : ((fillings log).map (·.position)).Nodup
  asked : ∀ position raw,
    (∃ start, .filled ⟨position, raw, start⟩ ∈ log) ↔
      .asked position ∈ log ∧ lookup.bracket? position = some raw ∧ memo.lookup position = none
  answered : ∀ position text, .answered position (some text) ∈ log →
    memo.lookup position = some text ∨
      ∃ filling, .filled filling ∈ log ∧ filling.position = position ∧ filling.CameTo fill text
  bare : ∀ position, .answered position none ∈ log → lookup.bracket? position = none

namespace Needed

variable {fill : String → EvalM σ String} {lookup : Lookup} {memo : Memo}
  {log : List (Consultation σ)} {position : Nat}

theorem nothing : Needed fill lookup memo [] where
  once := .nil
  asked position raw := by simp
  answered position text member := by simp at member
  bare position member := by simp at member

theorem called (needed : Needed fill lookup memo log) (procedure : Procedure)
    (start : Evaluation σ) : Needed fill lookup memo (.called procedure start :: log) where
  once := needed.once
  asked position raw := by simpa using needed.asked position raw
  answered position text member := by
    simpa using needed.answered position text (by simpa using member)
  bare position member := needed.bare position (by simpa using member)

theorem answering (needed : Needed fill lookup memo log) {answer : Option String}
    (known : ∀ text, answer = some text → memo.lookup position = some text)
    (absent : answer = none → lookup.bracket? position = none) :
    Needed fill lookup memo (.asked position :: .answered position answer :: log) where
  once := needed.once
  asked other raw := by
    have rest := needed.asked other raw
    by_cases same : other = position
    · subst same
      cases answer with
      | none => simpa [absent rfl] using rest
      | some text => simpa [known text rfl] using rest
    · simpa [same] using rest
  answered other text member := by
    rcases List.mem_cons.1 (List.mem_of_ne_of_mem (by simp) member) with same | member
    · obtain ⟨rfl, found⟩ := Consultation.answered.inj same
      exact .inl (known text found.symm)
    · simpa using needed.answered other text member
  bare other member := by
    rcases List.mem_cons.1 (List.mem_of_ne_of_mem (by simp) member) with same | member
    · obtain ⟨rfl, found⟩ := Consultation.answered.inj same
      exact absent found.symm
    · exact needed.bare other member

section

variable {raw : String} (written : lookup.bracket? position = some raw)
  (unfilled : memo.lookup position = none)

include written unfilled

theorem stuck (start : Evaluation σ) :
    Needed fill lookup memo [.asked position, .filled ⟨position, raw, start⟩] where
  once := by simp [fillings]
  asked other text := by
    by_cases same : other = position
    · subst same
      simp [written, unfilled, eq_comm]
    · simp [same]
  answered other text member := by simp at member
  bare other member := by simp at member

theorem filling {start : Evaluation σ} {text : String}
    (needed : Needed fill lookup ((position, text) :: memo) log)
    (came : Filling.CameTo fill ⟨position, raw, start⟩ text) :
    Needed fill lookup memo
      (.asked position :: .filled ⟨position, raw, start⟩ :: .answered position (some text) :: log) where
  once := by
    -- What follows is consulted with this bracket in memory, so it does not fill it again.
    refine List.nodup_cons.2 ⟨fun member => ?_, needed.once⟩
    obtain ⟨again, filled, same⟩ := List.mem_map.1 member
    have kept := ((needed.asked again.position again.raw).1 ⟨again.start, mem_fillings.1 filled⟩).2.2
    simp [show again.position = position from same] at kept
  asked other found := by
    have rest := needed.asked other found
    by_cases same : other = position
    · subst same
      simp only [List.lookup_cons_self, reduceCtorEq, and_false, iff_false, not_exists] at rest
      simp [rest, written, unfilled, eq_comm]
    · rw [List.lookup_cons, beq_false_of_ne same] at rest
      simpa [same] using rest
  answered other found member := by
    have behind := List.mem_of_ne_of_mem (by simp) (List.mem_of_ne_of_mem (by simp) member)
    by_cases same : other = position
    · subst same
      refine .inr ⟨⟨other, raw, start⟩, by simp, rfl, ?_⟩
      rcases List.mem_cons.1 behind with answer | member
      · rw [Option.some.inj (Consultation.answered.inj answer).2]
        exact came
      · rcases needed.answered other found member with kept | ⟨again, filled, at_position, _⟩
        · rw [List.lookup_cons_self, Option.some.injEq] at kept
          rwa [← kept]
        · have kept :=
            ((needed.asked again.position again.raw).1 ⟨again.start, filled⟩).2.2
          simp [at_position] at kept
    · have member : .answered other (some found) ∈ log := by simpa [same] using behind
      rcases needed.answered other found member with kept | ⟨again, filled, came⟩
      · rw [List.lookup_cons, beq_false_of_ne same] at kept
        exact .inl kept
      · exact .inr ⟨again, by simp [filled], came⟩
  bare other member := needed.bare other (by simpa using member)

end

theorem answers_eq (needed : Needed fill lookup [] log) {text other : String}
    (answered : .answered position (some text) ∈ log)
    (again : .answered position (some other) ∈ log) : text = other := by
  rcases needed.answered _ _ answered with held | ⟨first, filled, at_first, rendered, _, ran, rfl⟩
  · simp at held
  rcases needed.answered _ _ again with held | ⟨second, refilled, at_second, _, _, reran, rfl⟩
  · simp at held
  have same : first = second := List.inj_on_of_nodup_map needed.once (mem_fillings.2 filled)
    (mem_fillings.2 refilled) (at_first.trans at_second.symm)
  rw [same, reran] at ran
  rw [(Prod.mk.inj (Option.some.inj ran)).1]

end Needed

theorem consult_needed {vocabulary : Vocabulary σ} {fill : String → EvalM σ String}
    {lookup : Lookup} (act : Act σ α) (memo : Memo) (state : Evaluation σ) :
    Needed fill lookup memo (consult vocabulary fill lookup act memo state).1 := by
  -- The memory grows from one question to the next, and each rest of the act starts with its own.
  induction act generalizing memo state with
  | done result world => exact .nothing
  | bracket position world resume ih =>
      rw [consult, consultBracket]
      cases written : lookup.bracket? position with
      | none => exact (ih none world memo _).answering (by simp) fun _ => written
      | some raw =>
          dsimp only
          cases held : memo.lookup position with
          | some text =>
              exact (ih (some text) world memo _).answering (by simp [held]) (by simp)
          | none =>
              dsimp only
              cases ran : (fill raw).run { state with world } with
              | none => exact .stuck written held _
              | some outcome =>
                  obtain ⟨rendered, later⟩ := outcome
                  exact (ih (some (unescape rendered)) later.world _ later).filling written held
                    ⟨rendered, later, ran, rfl⟩
  | call procedure world resume ih =>
      rw [consult]
      cases (vocabulary.call procedure).run { state with world } with
      | none => exact Needed.nothing.called procedure _
      | some outcome => exact (ih outcome.1 outcome.2.world memo outcome.2).called procedure _
  | cancel world resume ih => exact ih world memo _
  | isCancelled world resume ih => exact ih _ world memo _

/-! What the world counts. -/

def EvalM.growth (count : σ → ℤ) (act : EvalM σ α) (start : Evaluation σ) : ℤ :=
  match act.run start with
  | none => 0
  | some (_, later) => count later.world - count start.world

theorem EvalM.growth_of_run (count : σ → ℤ) {act : EvalM σ α} {start later : Evaluation σ}
    {result : α} (ran : act.run start = some (result, later)) :
    act.growth count start = count later.world - count start.world := by
  rw [growth, ran]

def Consultation.growth (count : σ → ℤ) (vocabulary : Vocabulary σ)
    (fill : String → EvalM σ String) : Consultation σ → ℤ
  | .filled filling => (fill filling.raw).growth count filling.start
  | .called procedure start => (vocabulary.call procedure).growth count start
  | .asked _ | .answered _ _ => 0

def Act.Leaves (count : σ → ℤ) : Act σ α → ℤ → Prop
  | .done _ world, known => count world = known
  | .bracket _ world resume, known =>
    count world = known ∧ ∀ answer later, (resume answer later).Leaves count (count later)
  | .call _ world resume, known =>
    count world = known ∧ ∀ answer later, (resume answer later).Leaves count (count later)
  | .cancel world resume, known => count world = known ∧ (resume world).Leaves count known
  | .isCancelled world resume, known =>
    count world = known ∧ ∀ answer, (resume answer world).Leaves count known

/-- The resolvers and the attributes leave a count alone where they are asked for this chain. -/
structure Vocabulary.Leaves (count : σ → ℤ) (vocabulary : Vocabulary σ) (lookup : Lookup) :
    Prop where
  resolve : ∀ resolver ∈ vocabulary.resolvers, ∀ world,
    (resolver.resolve lookup world).Leaves count (count world)
  apply : ∀ handler ∈ vocabulary.attributes, ∀ value position world,
    (handler.apply value lookup position world).Leaves count (count world)

section

variable {count : σ → ℤ}

theorem Act.Leaves.andThen {act : Act σ α} {known : ℤ} (leaves : act.Leaves count known)
    {next : α → Acting σ β} (rest : ∀ result world, (next result world).Leaves count (count world)) :
    (act.andThen next).Leaves count known := by
  induction act generalizing known with
  | done result world => exact leaves ▸ rest result world
  | bracket position world resume ih | call procedure world resume ih =>
      exact ⟨leaves.1, fun answer later => ih answer later (leaves.2 answer later)⟩
  | cancel world resume ih => exact ⟨leaves.1, ih world leaves.2⟩
  | isCancelled world resume ih => exact ⟨leaves.1, fun answer => ih answer world (leaves.2 answer)⟩

variable {vocabulary : Vocabulary σ} {lookup : Lookup}

theorem inquireBase_leaves (resolvers : List (Resolver σ))
    (leave : ∀ resolver ∈ resolvers, ∀ world,
      (resolver.resolve lookup world).Leaves count (count world)) (world : σ) :
    (inquireBase lookup resolvers world).Leaves count (count world) := by
  induction resolvers generalizing world with
  | nil => exact rfl
  | cons resolver rest ih =>
      refine Act.Leaves.andThen (leave resolver (by simp) world) fun answer later => ?_
      cases answer.filter (0 < ·.position) with
      | some resolved => exact rfl
      | none => exact ih (fun other member => leave other (by simp [member])) later

theorem inquireAttribute_leaves (value : String) (position : Nat) (handlers : List (Attribute σ))
    (leave : ∀ handler ∈ handlers, ∀ world,
      (handler.apply value lookup position world).Leaves count (count world)) (world : σ) :
    (inquireAttribute lookup value position handlers world).Leaves count (count world) := by
  induction handlers generalizing world with
  | nil => exact rfl
  | cons handler rest ih =>
      refine Act.Leaves.andThen (leave handler (by simp) world) fun answer later => ?_
      cases answer with
      | some resolved => exact rfl
      | none => exact ih (fun other member => leave other (by simp [member])) later

theorem inquireAttributes_leaves (leaves : vocabulary.Leaves count lookup) (value : String)
    (position : Nat) (world : σ) :
    (inquireAttributes vocabulary lookup value position world).Leaves count (count world) := by
  fun_induction inquireAttributes vocabulary lookup value position generalizing world with
  | case1 value position complete => exact rfl
  | case2 value position incomplete ih =>
      refine ⟨rfl, fun cancelled => ?_⟩
      cases cancelled with
      | true => exact rfl
      | false =>
          refine Act.Leaves.andThen (inquireAttribute_leaves value position _
            (fun handler member => leaves.apply handler member value position) world) ?_
          intro answer later
          cases answer with
          | none => exact rfl
          | some next =>
              dsimp only
              split
              · rename_i moved
                exact ih next moved later
              · exact rfl

theorem inquire_leaves (leaves : vocabulary.Leaves count lookup) (world : σ) :
    (inquire vocabulary lookup world).Leaves count (count world) := by
  unfold inquire
  split
  · exact rfl
  · refine Act.Leaves.andThen (inquireBase_leaves _ leaves.resolve world) fun answer later => ?_
    cases answer with
    | none => exact rfl
    | some resolved => exact inquireAttributes_leaves leaves _ _ later

variable {fill : String → EvalM σ String}

def Consulted.Grows (count : σ → ℤ) (vocabulary : Vocabulary σ) (fill : String → EvalM σ String)
    (start : ℤ) (consulted : Consulted σ α) : Prop :=
  ∀ result later, consulted.2 = some (result, later) →
    count later.world = start + (consulted.1.map (·.growth count vocabulary fill)).sum

theorem Consulted.Grows.andThen {start : ℤ} {consulted : Consulted σ α}
    (grows : consulted.Grows count vocabulary fill start)
    {next : α → Evaluation σ → Consulted σ β}
    (rest : ∀ result later, (next result later).Grows count vocabulary fill (count later.world)) :
    (consulted.andThen next).Grows count vocabulary fill start := by
  obtain ⟨log, _ | ⟨found, between⟩⟩ := consulted
  · intro result later ran
    cases ran
  · intro result later ran
    have first := grows found between rfl
    have second := rest found between result later ran
    rw [second, first, add_assoc, ← List.sum_append, ← List.map_append]
    rfl

theorem consultBracket_grows (memo : Memo) (position : Nat) (state : Evaluation σ) :
    (consultBracket fill lookup memo position state).Grows count vocabulary fill
      (count state.world) := by
  unfold consultBracket
  cases lookup.bracket? position with
  | none =>
      rintro result later ⟨⟩
      simp [Consultation.growth]
  | some raw =>
      dsimp only
      cases memo.lookup position with
      | some text =>
          rintro result later ⟨⟩
          simp [Consultation.growth]
      | none =>
          dsimp only
          cases filled : (fill raw).run state with
          | none =>
              rintro result later ⟨⟩
          | some outcome =>
              rintro result later ⟨⟩
              simp [Consultation.growth, EvalM.growth_of_run count filled]

theorem consult_grows (act : Act σ α) (memo : Memo) (state : Evaluation σ) (known : ℤ)
    (leaves : act.Leaves count known) :
    (consult vocabulary fill lookup act memo state).Grows count vocabulary fill known := by
  induction act generalizing memo state known with
  | done found world =>
      intro result later ran
      cases ran
      have same : count world = known := leaves
      simp [consult, same]
  | bracket position world resume ih =>
      rw [← leaves.1]
      exact (consultBracket_grows memo position { state with world }).andThen
        fun reading later => ih _ _ _ _ _ (leaves.2 _ _)
  | call procedure world resume ih =>
      refine Consulted.Grows.andThen (fun answer later called => ?_)
        fun answer later => ih _ _ _ _ _ (leaves.2 _ _)
      have grown := EvalM.growth_of_run count called
      simp [Consultation.growth, grown, leaves.1]
  | cancel world resume ih => exact ih world memo _ known leaves.2
  | isCancelled world resume ih => exact ih _ world memo _ known (leaves.2 _)

end

/-- What is consulted for the value of a chain, and what it comes to. -/
def consultation (vocabulary : Vocabulary σ) (fill : String → EvalM σ String) (lookup : Lookup)
    (start : Evaluation σ) : Consulted σ (Except Failure String × Memo) :=
  consult vocabulary fill lookup (inquire vocabulary lookup start.world) [] start

theorem resolveChain_eq_consultation (vocabulary : Vocabulary σ) (fill : String → EvalM σ String)
    (lookup : Lookup) (start : Evaluation σ) :
    (resolveChain vocabulary fill lookup).run start =
      (consultation vocabulary fill lookup start).2.map fun found => (found.1.1, found.2) := by
  rw [resolveChain_eq_ask, StateT.run_bind, ask, EvalM.run_world_bind, consultation, consult_snd]
  cases (perform vocabulary fill lookup (inquire vocabulary lookup start.world) []).run start <;> rfl

/-- The chain of a tag that is not dynamic is looked up with its brackets as they stand. Each bracket
is filled once if a resolver or an attribute asks for it, and else never; all of them are told the
same text, and what they leave alone changes only by these fillings. -/
theorem resolveBody_fills_brackets_once (vocabulary : Vocabulary σ) (context : Context)
    (limit levels : Nat) (body : Body) (static : body.dynamic = false) (before : Evaluation σ) :
    let fill := renderText vocabulary (resolveBody vocabulary context limit levels)
    let read := before.chains.lookup Chain.parse body.lookup
    let lookup : Lookup := ⟨read.1.value, limit - levels, context⟩
    let consulted := consultation vocabulary fill lookup { before with chains := read.2 }
    (resolveBody vocabulary context limit (levels + 1) body).run before =
        consulted.2.bind (fun found =>
          (settle vocabulary fill context body found.1.1).run found.2) ∧
      ((fillings consulted.1).map (·.position)).Nodup ∧
      (∀ position raw, (∃ start, .filled ⟨position, raw, start⟩ ∈ consulted.1) ↔
        .asked position ∈ consulted.1 ∧ lookup.bracket? position = some raw) ∧
      (∀ position text, .answered position (some text) ∈ consulted.1 →
        ∃ raw start, .filled ⟨position, raw, start⟩ ∈ consulted.1 ∧
          Filling.CameTo fill ⟨position, raw, start⟩ text) ∧
      (∀ position text other, .answered position (some text) ∈ consulted.1 →
        .answered position (some other) ∈ consulted.1 → text = other) ∧
      (∀ position, .answered position none ∈ consulted.1 → lookup.bracket? position = none) ∧
      ∀ count, vocabulary.Leaves count lookup → ∀ found ∈ consulted.2,
        count found.2.world = count before.world +
          (consulted.1.map (·.growth count vocabulary fill)).sum := by
  intro fill read lookup consulted
  have needed : Needed fill lookup [] consulted.1 := consult_needed _ _ _
  refine ⟨?_, needed.once, fun position raw => ?_, fun position text answered => ?_,
    fun position text other => needed.answers_eq, needed.bare, ?_⟩
  · rw [resolveBody_settle]
    have looked : (lookUp vocabulary fill context (limit - levels) body).run before =
        (resolveChain vocabulary fill lookup).run { before with chains := read.2 } := by
      rw [lookUp, static]
      rfl
    dsimp only
    rw [StateT.run_bind, looked, resolveChain_eq_consultation]
    cases consulted.2 <;> rfl
  · simpa using needed.asked position raw
  · rcases needed.answered position text answered with held | ⟨filling, filled, rfl, came⟩
    · simp at held
    · exact ⟨filling.raw, filling.start, filled, came⟩
  · rintro count leaves ⟨found, later⟩ came
    exact consult_grows _ _ _ _ (inquire_leaves leaves before.world) found later came

def nosyVocabulary : Vocabulary Nat where
  resolvers :=
    [⟨"count", fun lookup =>
        if lookup.keyIs 0 "count" then do
          OptionT.lift (Acting.modify (· + 1))
          return ⟨toString (← Answering.world), 1⟩
        else failure⟩,
      ⟨"hesitant", fun _ => do
        let _ ← Answering.bracket 0
        let _ ← Answering.bracket 0
        failure⟩,
      ⟨"echo", fun _ => do return ⟨(← Answering.bracket 0) ++ (← Answering.bracket 0), 1⟩⟩]
  attributes :=
    [⟨fun value _ position => do
      return ⟨value ++ (← Answering.bracket position) ++ (← Answering.bracket position),
        position + 1⟩⟩]
  report := fun _ _ world => world
  note := fun _ _ world => world
  call := fun _ => failure
  timeout := none

theorem nosyVocabulary_leaves {lookup : Lookup} (other : lookup.keyIs 0 "count" = false) :
    nosyVocabulary.Leaves Nat.cast lookup where
  resolve resolver known world := by
    simp only [nosyVocabulary, List.mem_cons, List.not_mem_nil, or_false] at known
    rcases known with rfl | rfl | rfl
    · simp only [other]
      exact rfl
    · refine ⟨rfl, fun answer later => ?_⟩
      cases answer with
      | none => exact rfl
      | some first =>
          refine ⟨rfl, fun answer later => ?_⟩
          cases answer <;> exact rfl
    · refine ⟨rfl, fun answer later => ?_⟩
      cases answer with
      | none => exact rfl
      | some first =>
          refine ⟨rfl, fun answer later => ?_⟩
          cases answer <;> exact rfl
  apply handler known value position world := by
    obtain rfl := List.mem_singleton.1 known
    refine ⟨rfl, fun answer later => ?_⟩
    cases answer with
    | none => exact rfl
    | some first =>
        refine ⟨rfl, fun answer later => ?_⟩
        cases answer <;> exact rfl

theorem resolveBody_fills_brackets_once_nosy :
    let body := Body.ofText "echo[<count>].and[<count>]"
    let fill := renderText nosyVocabulary (resolveBody nosyVocabulary {} depthLimit 31)
    let read := (Evaluation.fresh 0).chains.lookup Chain.parse body.lookup
    let consulted := consultation nosyVocabulary fill ⟨read.1.value, 1, {}⟩
      { Evaluation.fresh 0 with chains := read.2 }
    body.dynamic = false ∧ ((fillings consulted.1).map (·.position)).Nodup ∧
      ∀ found ∈ consulted.2, (found.2.world : ℤ) =
        (consulted.1.map (·.growth Nat.cast nosyVocabulary fill)).sum := by
  intro body fill read consulted
  have static : body.dynamic = false := by decide +kernel
  obtain ⟨_, once, _, _, _, _, counted⟩ := resolveBody_fills_brackets_once nosyVocabulary {} depthLimit
    31 body static (Evaluation.fresh 0)
  refine ⟨static, once, fun found came => ?_⟩
  have parsed : read.1.value = Chain.parse body.lookup := (Cache.Faithful.empty _).lookup_value _
  have other : Lookup.keyIs 0 "count" ⟨read.1.value, 1, {}⟩ = false := by
    rw [parsed]
    decide +kernel
  exact (counted Nat.cast (nosyVocabulary_leaves other) found came).trans (zero_add _)

end TagScript.Tag
