import TagScript.Proofs.Engine.Run
import TagScript.Proofs.Engine.Without
import TagScript.Proofs.Tag.Parallel

/-! Worlds that the built-in tags cannot tell apart. Such worlds may differ in whatever tags have no
words for, and in what only those lookups find out that are left out. -/

namespace TagScript

variable {η σ α β : Type}

def Queue.face (queue : Queue) : Queue :=
  { queue with kind := .instant, delayUntil := none, entries := [], timer := none, history := [] }

def World.setting (world : World η) : World η :=
  { world with scheduler := .empty, queues := #[], events := [], marks := [] }

namespace Tag

open EvalM (Parallel)

def Acting.Matches (related : σ → σ → Prop) (vocabulary : Vocabulary σ)
    (call other : Procedure → EvalM σ CallResult) (act following : Acting σ α) : Prop :=
  ∀ fill fill' : String → EvalM σ String,
    (∀ text, Parallel related (fill text) (fill' text) related) → ∀ lookup memo,
    Parallel related (ask (vocabulary.calling call) fill lookup act memo)
      (ask (vocabulary.calling other) fill' lookup following memo) related

def Answering.Matches (related : σ → σ → Prop) (vocabulary : Vocabulary σ)
    (call other : Procedure → EvalM σ CallResult) (act following : Answering σ α) : Prop :=
  Acting.Matches related vocabulary call other act.run following.run

variable {related : σ → σ → Prop} {vocabulary : Vocabulary σ}
  {call other : Procedure → EvalM σ CallResult}

namespace Acting.Matches

variable {act following : Acting σ α}

theorem pure (result : α) :
    Matches related vocabulary call other (Pure.pure result) (Pure.pure result) :=
  fun _ _ _ _ _ => .done _

theorem bind {next then' : α → Acting σ β} (first : Matches related vocabulary call other act following)
    (rest : ∀ result, Matches related vocabulary call other (next result) (then' result)) :
    Matches related vocabulary call other (act >>= next) (following >>= then') := by
  intro fill fill' fills lookup memo
  rw [ask_bind, ask_bind]
  exact .bind (first fill fill' fills lookup memo) fun found =>
    rest found.1 fill fill' fills lookup found.2

theorem world_bind {next then' : σ → Acting σ β}
    (rest : ∀ left right, related left right →
      Matches related vocabulary call other (next left) (then' right)) :
    Matches related vocabulary call other (Acting.world >>= next) (Acting.world >>= then') := by
  intro fill fill' fills lookup memo
  simp only [ask_bind, ask_world, bind_assoc, pure_bind]
  exact .any_world_bind fun left right held => rest left right held fill fill' fills lookup memo

theorem modify {change alter : σ → σ}
    (keeps : ∀ left right, related left right → related (change left) (alter right)) :
    Matches related vocabulary call other (Acting.modify change) (Acting.modify alter) := by
  intro fill fill' _ lookup memo
  rw [ask_modify, ask_modify]
  exact .bind (.modifyWorld keeps) fun _ => .done _

theorem bracket (position : Nat) :
    Matches related vocabulary call other (Acting.bracket position) (Acting.bracket position) := by
  intro fill fill' fills lookup memo
  rw [ask_bracket, ask_bracket]
  exact readBracket_parallel fills lookup memo position

theorem asked {procedure : Procedure}
    (calls : Parallel related (call procedure) (other procedure) related) :
    Matches related vocabulary call other (Acting.call procedure) (Acting.call procedure) := by
  intro fill fill' _ lookup memo
  rw [ask_call, ask_call]
  exact .bind calls fun _ => .done _

end Acting.Matches

namespace Answering.Matches

variable {act following act' following' : Answering σ α}

theorem pure (result : α) :
    Matches related vocabulary call other (Pure.pure result) (Pure.pure result) :=
  Acting.Matches.pure _

theorem failure : Matches related vocabulary call other (failure : Answering σ α) failure :=
  Acting.Matches.pure _

theorem bind {next then' : α → Answering σ β}
    (first : Matches related vocabulary call other act following)
    (rest : ∀ result, Matches related vocabulary call other (next result) (then' result)) :
    Matches related vocabulary call other (act >>= next) (following >>= then') := by
  refine Acting.Matches.bind first fun answer => ?_
  cases answer with
  | none => exact Acting.Matches.pure _
  | some result => exact rest result

theorem bracket (position : Nat) :
    Matches related vocabulary call other (Answering.bracket position)
      (Answering.bracket position) :=
  Acting.Matches.bracket position

theorem ofOption {value value' : Option α} (same : value = value') :
    Matches related vocabulary call other (Answering.ofOption value) (Answering.ofOption value') :=
  same ▸ Acting.Matches.pure value

theorem lift {act following : Acting σ α}
    (both : Acting.Matches related vocabulary call other act following) :
    Matches related vocabulary call other (OptionT.lift act) (OptionT.lift following) :=
  Acting.Matches.bind both fun _ => Acting.Matches.pure _

theorem world_bind {next then' : σ → Answering σ β}
    (rest : ∀ left right, related left right →
      Matches related vocabulary call other (next left) (then' right)) :
    Matches related vocabulary call other (Answering.world >>= next) (Answering.world >>= then') := by
  have opened (next : σ → Answering σ β) :
      (Answering.world >>= next).run = Acting.world >>= fun world => (next world).run := rfl
  unfold Matches
  rw [opened, opened]
  exact Acting.Matches.world_bind rest

theorem ite {test : Prop} [Decidable test]
    (yes : test → Matches related vocabulary call other act following)
    (no : ¬ test → Matches related vocabulary call other act' following') :
    Matches related vocabulary call other (if test then act else act')
      (if test then following else following') := by
  split
  · exact yes ‹_›
  · exact no ‹_›

end Answering.Matches

end Tag

open Tag (Acting Answering Attribute Context Lookup Procedure Resolver)
open Tag.EvalM (Parallel)

def clock (context : Context) (world : World η) : Duration :=
  if context.attached then world.now else Duration.zero

/-- Related worlds look the same to tags that are filled in a context, if lookups that are hidden are
left out. -/
structure Indistinct (related : World η → World η → Prop) (hidden : Lookup → Bool)
    (context : Context) : Prop where
  face : ∀ {left right}, related left right → ∀ ref, (left.queue ref).face = (right.queue ref).face
  setting : ∀ {left right}, related left right → left.setting = right.setting
  emit : ∀ {left right} event, related left right →
    related (left.emit event) right ∧ related left (right.emit event)
  jot : ∀ {left right} note, related left right → related (left.jot note) (right.jot note)
  property : ∀ {left right sooner later}, related left right → related sooner later →
    ∀ lookup : Lookup, lookup.context = context → hidden lookup = false →
    lookup.keyIs 0 "queue" = true → ∀ ref,
    (lookup.key? 1).bind (Vocabulary.queueProperty? (clock context sooner) (left.queue ref)) =
      (lookup.key? 1).bind (Vocabulary.queueProperty? (clock context later) (right.queue ref))

namespace Indistinct

variable {related : World η → World η → Prop} {hidden : Lookup → Bool} {context : Context}
  (indistinct : Indistinct related hidden context) {left right : World η}

include indistinct

theorem log (level : LogLevel) (text : String) (held : related left right) :
    related (left.log level text) (right.log level text) :=
  (indistinct.emit _ (indistinct.emit _ held).1).2

theorem report (host : Host) (queue : Option String) (text : String) (held : related left right) :
    related (host.report queue text left) (host.report queue text right) :=
  indistinct.jot _ (indistinct.emit _ (indistinct.emit _ held).1).2

end Indistinct

def CallsMatch (related : World η → World η → Prop) (hidden : Lookup → Bool)
    (call other : Procedure → RunM η Tag.CallResult) : Prop :=
  (∀ lookup : Lookup, lookup.isProcedure = true → hidden lookup = true) ∨
    (∀ left right calls, related left right → related { left with calls } { right with calls }) ∧
      ∀ procedure, Parallel related (call procedure) (other procedure) related

namespace Vocabulary

variable {related : World η → World η → Prop} {hidden : Lookup → Bool} {context : Context}
  {vocabulary : Tag.Vocabulary (World η)} {call other : Procedure → RunM η Tag.CallResult}
  {lookup : Lookup}

theorem ownQueue_matches {next then' : Queue → Answering (World η) α}
    (rest : ∀ left right, related left right → ∀ ref,
      Answering.Matches related vocabulary call other (next (left.queue ref))
        (then' (right.queue ref))) :
    Answering.Matches related vocabulary call other (ownQueue lookup >>= next)
      (ownQueue lookup >>= then') := by
  cases own : lookup.context.queue with
  | none =>
      have opened (next : Queue → Answering (World η) α) : ownQueue lookup >>= next = failure := by
        rw [ownQueue, own]
        rfl
      rw [opened, opened]
      exact .failure
  | some ref =>
      have opened (next : Queue → Answering (World η) α) :
          ownQueue lookup >>= next = Answering.world >>= fun world => next (world.queue ref) := by
        rw [ownQueue, own]
        rfl
      rw [opened, opened]
      exact .world_bind fun left right held => rest left right held ref

theorem definition_matches (indistinct : Indistinct related hidden context) :
    Answering.Matches related vocabulary call other ((definition : Resolver (World η)).resolve lookup)
      ((definition : Resolver (World η)).resolve lookup) := by
  refine .ite (fun _ => .failure) fun _ => .bind (.bracket 0) fun name => ?_
  refine ownQueue_matches fun left right held ref => ?_
  have same : (left.queue ref).face.definition? name = (right.queue ref).face.definition? name := by
    rw [indistinct.face held ref]
  exact .bind (.ofOption same) fun _ => .pure _

theorem savedEntry_matches (indistinct : Indistinct related hidden context) :
    Answering.Matches related vocabulary call other ((savedEntry : Resolver (World η)).resolve lookup)
      ((savedEntry : Resolver (World η)).resolve lookup) := by
  refine .ite (fun _ => .failure) fun _ => .bind (.bracket 0) fun name => ?_
  refine ownQueue_matches fun left right held ref => ?_
  have same : (left.queue ref).face.saved? name = (right.queue ref).face.saved? name := by
    rw [indistinct.face held ref]
  refine .bind (.ofOption same) fun invocation => ?_
  split
  · exact .bind (.ofOption rfl) fun _ => .pure _
  · exact .pure _

theorem context_matches (indistinct : Indistinct related hidden context) :
    Answering.Matches related vocabulary call other
      ((Vocabulary.context : Resolver (World η)).resolve lookup)
      ((Vocabulary.context : Resolver (World η)).resolve lookup) := by
  refine .ite (fun _ => .failure) fun _ => .bind (.ofOption rfl) fun name => ?_
  refine ownQueue_matches fun left right held ref => ?_
  have same : (left.queue ref).face.contextValue? name = (right.queue ref).face.contextValue? name := by
    rw [indistinct.face held ref]
  exact .bind (.ofOption same) fun _ => .pure _

theorem element_matches :
    Answering.Matches related vocabulary call other ((element : Resolver (World η)).resolve lookup)
      ((element : Resolver (World η)).resolve lookup) :=
  .ite (fun _ => .failure) fun _ => .bind (.bracket 0) fun _ => .pure _

def describe (lookup : Lookup) (found : Queue) : Answering (World η) Tag.Resolved := do
  let world ← Answering.world
  match (lookup.key? 1).bind (queueProperty? (clock lookup.context world) found) with
  | some value => return ⟨value, 2⟩
  | none => return ⟨found.id, 1⟩

theorem describe_matches (indistinct : Indistinct related hidden context)
    (here : lookup.context = context) (shown : hidden lookup = false)
    (asks : lookup.keyIs 0 "queue" = true) {left right : World η} (held : related left right)
    (ref : QueueRef) :
    Answering.Matches related vocabulary call other (describe lookup (left.queue ref))
      (describe lookup (right.queue ref)) := by
  refine .world_bind fun sooner later following => ?_
  have id : (left.queue ref).face.id = (right.queue ref).face.id := by
    rw [indistinct.face held ref]
  have same := indistinct.property held following lookup here shown asks ref
  rw [here, same, show (left.queue ref).id = (right.queue ref).id from id]
  split
  · exact .pure _
  · exact .pure _

theorem queue_matches (indistinct : Indistinct related hidden context)
    (here : lookup.context = context) (shown : hidden lookup = false) :
    Answering.Matches related vocabulary call other ((queue : Resolver (World η)).resolve lookup)
      ((queue : Resolver (World η)).resolve lookup) := by
  have live {left right : World η} (held : related left right) (id : String) :
      left.liveQueue? id = right.liveQueue? id := by
    have same : left.setting.liveQueue? id = right.setting.liveQueue? id := by
      rw [indistinct.setting held]
    exact same
  unfold queue
  dsimp only
  cases asks : lookup.keyIs 0 "queue" with
  | false => exact .failure
  | true =>
      have told {left right : World η} (held : related left right) (ref : QueueRef) :
          Answering.Matches related vocabulary call other (describe lookup (left.queue ref))
            (describe lookup (right.queue ref)) :=
        describe_matches indistinct here shown asks held ref
      refine .ite (fun no => by simp at no) fun _ => .ite (fun _ => ?_) fun _ =>
        .ite (fun _ => ?_) fun _ => ?_
      · refine .bind (.bracket 1) fun id => .ite (fun _ => .failure) fun _ => ?_
        refine .world_bind fun left right held => ?_
        rw [live held]
        exact .pure _
      · refine .bind (.bracket 0) fun id => .world_bind fun left right held => ?_
        have same : liveQueue? lookup left id = liveQueue? lookup right id := by
          rw [liveQueue?, liveQueue?, live held]
        rw [same]
        cases liveQueue? lookup right id with
        | none => exact .failure
        | some ref => exact told held ref
      · exact ownQueue_matches fun left right held ref => told held ref

theorem callCounted_matches (indistinct : Indistinct related hidden context)
    (counts : ∀ left right calls, related left right →
      related { left with calls } { right with calls })
    (procedure : Procedure) (calls : Parallel related (call procedure) (other procedure) related) :
    Acting.Matches related vocabulary call other (callCounted procedure) (callCounted procedure) := by
  have count {left right : World η} (held : related left right) : left.calls = right.calls := by
    have same : left.setting.calls = right.setting.calls := by rw [indistinct.setting held]
    exact same
  refine .world_bind fun left right held => ?_
  rw [count held]
  split
  · exact .bind (.modify fun _ _ => indistinct.log _ _) fun _ => .pure _
  · refine .bind (.modify fun left right held => ?_) fun _ => .bind (.asked calls) fun result =>
      .bind (.modify fun left right held => ?_) fun _ => ?_
    · rw [count held]
      exact counts left right _ held
    · rw [count held]
      exact counts left right _ held
    · cases result with
      | ok outcome => exact .pure _
      | error error => exact .bind (.modify fun _ _ => indistinct.log _ _) fun _ => .pure _

theorem procedure_matches (indistinct : Indistinct related hidden context)
    (calls : CallsMatch related hidden call other) (shown : hidden lookup = false) :
    Answering.Matches related vocabulary call other ((procedure : Resolver (World η)).resolve lookup)
      ((procedure : Resolver (World η)).resolve lookup) := by
  unfold procedure
  dsimp only
  cases asks : lookup.keyIs 0 "proc" with
  | false => exact .failure
  | true =>
      rcases calls with hides | ⟨counts, calls⟩
      · exact absurd (hides lookup asks) (by simp [shown])
      · have values : Answering.Matches related vocabulary call other
            (callValues lookup : Answering (World η) _) (callValues lookup) :=
          .ite (fun _ => .bind (.bracket 1) fun _ => .pure _) fun _ => .pure _
        have called (procedure : Procedure) : Answering.Matches related vocabulary call other
            (OptionT.mk (callCounted procedure) : Answering (World η) _)
            (OptionT.mk (callCounted procedure)) :=
          callCounted_matches indistinct counts procedure (calls procedure)
        exact .bind (.bracket 0) fun _ => .ite (fun _ => .failure) fun _ =>
          .bind values fun _ => .bind (called _) fun _ => .bind (.ofOption rfl) fun _ => .pure _

theorem resolvers_match (indistinct : Indistinct related hidden context)
    (calls : CallsMatch related hidden call other) (here : lookup.context = context)
    (shown : hidden lookup = false) {resolver : Resolver (World η)} (known : resolver ∈ resolvers) :
    Answering.Matches related vocabulary call other (resolver.resolve lookup)
      (resolver.resolve lookup) := by
  simp only [resolvers, List.mem_cons, List.not_mem_nil, or_false] at known
  rcases known with rfl | rfl | rfl | rfl | rfl | rfl
  · exact definition_matches indistinct
  · exact queue_matches indistinct here shown
  · exact savedEntry_matches indistinct
  · exact context_matches indistinct
  · exact element_matches
  · exact procedure_matches indistinct calls shown

theorem replaceAttribute_matches (value : String) (position : Nat) :
    Answering.Matches related vocabulary call other
      (replaceAttribute value lookup position : Answering (World η) _)
      (replaceAttribute value lookup position) :=
  .bind (.bracket position) fun _ => .ite (fun _ => .failure) fun _ =>
    .ite (fun _ => .bind (.lift (.bracket _)) fun _ => .pure _) fun _ => .pure _

theorem values_match (value : String) (position : Nat) :
    Answering.Matches related vocabulary call other
      ((values : Attribute (World η)).apply value lookup position)
      ((values : Attribute (World η)).apply value lookup position) := by
  have computed (key : String) : Answering.Matches related vocabulary call other (do
      let left ← (Answering.ofOption (number? value) : Answering (World η) _)
      let right ← Answering.ofOption (number? (← Answering.bracket position))
      let result ← Answering.ofOption (arithmetic? key left right)
      return (⟨numberText result, position + 1⟩ : Tag.Resolved)) (do
      let left ← (Answering.ofOption (number? value) : Answering (World η) _)
      let right ← Answering.ofOption (number? (← Answering.bracket position))
      let result ← Answering.ofOption (arithmetic? key left right)
      return (⟨numberText result, position + 1⟩ : Tag.Resolved)) :=
    .bind (.ofOption rfl) fun _ => .bind (.bracket position) fun _ => .bind (.ofOption rfl) fun _ =>
      .bind (.ofOption rfl) fun _ => .pure _
  have compared (key : String) : Answering.Matches related vocabulary call other (do
      let text ← (Answering.bracket position : Answering (World η) _)
      return (⟨← Answering.ofOption (comparison? key value text), position + 1⟩ : Tag.Resolved)) (do
      let text ← (Answering.bracket position : Answering (World η) _)
      return (⟨← Answering.ofOption (comparison? key value text), position + 1⟩ : Tag.Resolved)) :=
    .bind (.bracket position) fun _ => .bind (.ofOption rfl) fun _ => .pure _
  unfold values
  dsimp only
  refine .bind (.ofOption rfl) fun key => ?_
  split
  · exact computed _
  · exact computed _
  · exact computed _
  · exact computed _
  · exact compared _
  · exact compared _
  · exact compared _
  · exact replaceAttribute_matches value position
  · exact .bind (.ofOption rfl) fun _ => .pure _

end Vocabulary

theorem Engine.builtin_matching {related : World η → World η → Prop} {hidden : Lookup → Bool}
    {context : Context} (indistinct : Indistinct related hidden context) (host : Host)
    {call other : Procedure → RunM η Tag.CallResult} (calls : CallsMatch related hidden call other)
    (outside : Firing η) :
    (((Engine.builtin host).withoutTags hidden).vocabulary outside).Matching related call other context where
  remark := fun level text _ _ held => indistinct.emit _ held
  report := fun _ _ _ held => indistinct.report host _ _ held
  resolve := by
    intro resolver known fill fill' fills lookup here memo
    obtain ⟨whole, member, rfl⟩ := List.mem_map.1 known
    cases shown : hidden lookup with
    | true =>
        simp only [Tag.Resolver.except, shown, ↓reduceIte]
        exact Answering.Matches.failure fill fill' fills lookup memo
    | false =>
        simp only [Tag.Resolver.except, shown, Bool.false_eq_true, ↓reduceIte]
        exact Vocabulary.resolvers_match indistinct calls here shown member fill fill' fills lookup memo
  apply := by
    intro handler known fill fill' fills value lookup here position memo
    obtain rfl := List.mem_singleton.1 known
    exact Vocabulary.values_match value position fill fill' fills lookup memo

end TagScript
