import TagScript.Vocabulary.Value

/-! Tags that do no more than look, ask for brackets, tell something, and call procedures. All
built-in tags are of this kind, and they call procedures only while they keep count. -/

namespace TagScript

variable {η α β : Type}

namespace World

def Aloof (world other : World η) : Prop :=
  ∃ events host, other = { world with events, host }

theorem emit_aloof (event : Event) (world : World η) : world.Aloof (world.emit event) :=
  ⟨_, _, rfl⟩

end World

namespace Tag

inductive Acting.Plain (free : Bool) (counting : Bool := true) :
    {α : Type} → Acting (World η) α → Prop
  | pure {α : Type} (result : α) : Plain free counting (Pure.pure result : Acting (World η) α)
  | bind {α β : Type} {act : Acting (World η) α} {next : α → Acting (World η) β}
      (first : Plain free counting act) (rest : ∀ result, Plain free counting (next result)) :
      Plain free counting (act >>= next)
  | world : Plain free counting Acting.world
  | tell {change : World η → World η} (aloof : ∀ world : World η, world.Aloof (change world)) :
      Plain free counting (Acting.modify change)
  | bracket (position : Nat) : Plain free counting (Acting.bracket position)
  | call (procedure : Procedure) (isFree : free = true) :
      Plain free counting (Acting.call procedure)
  | counted (procedure : Procedure) (counts : counting = true) :
      Plain free counting (Vocabulary.callCounted procedure)
  | cancel : Plain free counting Acting.cancel
  | isCancelled : Plain free counting Acting.isCancelled

def Answering.Plain (free : Bool) (counting : Bool := true) (act : Answering (World η) α) : Prop :=
  act.run.Plain free counting

namespace Answering.Plain

variable {free counting : Bool}

theorem pure (result : α) : (Pure.pure result : Answering (World η) α).Plain free counting :=
  Acting.Plain.pure _

theorem failure : (failure : Answering (World η) α).Plain free counting := Acting.Plain.pure _

theorem bind {act : Answering (World η) α} {next : α → Answering (World η) β}
    (first : act.Plain free counting) (rest : ∀ result, (next result).Plain free counting) :
    (act >>= next).Plain free counting := by
  refine Acting.Plain.bind first fun answer => ?_
  cases answer with
  | none => exact Acting.Plain.pure _
  | some result => exact rest result

theorem lift {act : Acting (World η) α} (plain : act.Plain free counting) :
    (OptionT.lift act : Answering (World η) α).Plain free counting :=
  Acting.Plain.bind plain fun _ => Acting.Plain.pure _

theorem bracket (position : Nat) :
    (Answering.bracket position : Answering (World η) _).Plain free counting :=
  Acting.Plain.bracket position

theorem ofOption (value : Option α) :
    (Answering.ofOption value : Answering (World η) α).Plain free counting :=
  Acting.Plain.pure value

theorem world : (Answering.world : Answering (World η) _).Plain free counting := lift .world

theorem ite {test : Prop} [Decidable test] {act other : Answering (World η) α}
    (yes : act.Plain free counting) (no : other.Plain free counting) :
    (if test then act else other).Plain free counting := by
  split
  · exact yes
  · exact no

end Answering.Plain

end Tag

namespace Vocabulary

open Tag (Acting Answering Attribute Lookup Resolver)

variable {free counting : Bool}

theorem ownQueue_plain (lookup : Lookup) :
    (ownQueue lookup : Answering (World η) Queue).Plain free counting :=
  .bind (.ofOption _) fun _ => .bind .world fun _ => .pure _

theorem definition_plain (lookup : Lookup) :
    ((definition : Resolver (World η)).resolve lookup).Plain free counting :=
  .ite .failure (.bind (.bracket 0) fun _ => .bind (ownQueue_plain lookup) fun _ =>
    .bind (.ofOption _) fun _ => .pure _)

theorem queue_plain (lookup : Lookup) :
    ((queue : Resolver (World η)).resolve lookup).Plain free counting := by
  refine .ite .failure (.ite ?_ (.ite ?_ ?_))
  · exact .bind (.bracket 1) fun _ => .ite .failure (.bind .world fun _ => .pure _)
  · refine .bind (.bracket 0) fun _ => .bind .world fun _ => .bind (.ofOption _) fun _ =>
      .bind (.pure _) fun _ => .bind .world fun _ => ?_
    dsimp only
    split
    · exact .pure _
    · exact .pure _
  · refine .bind (ownQueue_plain lookup) fun _ => .bind .world fun _ => ?_
    dsimp only
    split
    · exact .pure _
    · exact .pure _

theorem savedEntry_plain (lookup : Lookup) :
    ((savedEntry : Resolver (World η)).resolve lookup).Plain free counting := by
  refine .ite .failure (.bind (.bracket 0) fun _ => .bind (ownQueue_plain lookup) fun _ =>
    .bind (.ofOption _) fun _ => ?_)
  split
  · exact .bind (.ofOption _) fun _ => .pure _
  · exact .pure _

theorem context_plain (lookup : Lookup) :
    ((context : Resolver (World η)).resolve lookup).Plain free counting :=
  .ite .failure (.bind (.ofOption _) fun _ => .bind (ownQueue_plain lookup) fun _ =>
    .bind (.ofOption _) fun _ => .pure _)

theorem element_plain (lookup : Lookup) :
    ((element : Resolver (World η)).resolve lookup).Plain free counting :=
  .ite .failure (.bind (.bracket 0) fun _ => .pure _)

theorem procedure_plain (lookup : Lookup) :
    ((procedure : Resolver (World η)).resolve lookup).Plain free := by
  have values : (callValues lookup : Answering (World η) _).Plain free :=
    .ite (.bind (.bracket 1) fun _ => .pure _) (.pure _)
  have called (procedure : Tag.Procedure) :
      (OptionT.mk (callCounted procedure) : Answering (World η) _).Plain free :=
    Acting.Plain.counted procedure rfl
  exact .ite .failure (.bind (.bracket 0) fun _ => .ite .failure (.bind values fun _ =>
    .bind (called _) fun _ => .bind (.ofOption _) fun _ => .pure _))

theorem plain_or_procedure {resolver : Resolver (World η)} (known : resolver ∈ resolvers)
    (lookup : Lookup) : (resolver.resolve lookup).Plain free counting ∨ resolver = procedure := by
  simp only [resolvers, List.mem_cons, List.not_mem_nil, or_false] at known
  rcases known with rfl | rfl | rfl | rfl | rfl | rfl
  · exact .inl (definition_plain lookup)
  · exact .inl (queue_plain lookup)
  · exact .inl (savedEntry_plain lookup)
  · exact .inl (context_plain lookup)
  · exact .inl (element_plain lookup)
  · exact .inr rfl

theorem resolvers_plain (free : Bool) (resolver : Resolver (World η)) (known : resolver ∈ resolvers)
    (lookup : Lookup) : (resolver.resolve lookup).Plain free := by
  rcases plain_or_procedure known lookup with plain | rfl
  · exact plain
  · exact procedure_plain lookup

theorem resolvers_plain_of_not_proc {resolver : Resolver (World η)} (known : resolver ∈ resolvers)
    {lookup : Lookup} (other : lookup.keyIs 0 "proc" = false) :
    (resolver.resolve lookup).Plain free counting := by
  rcases plain_or_procedure known lookup with plain | rfl
  · exact plain
  · unfold procedure
    simp only [other, Bool.not_false, ↓reduceIte]
    exact .failure

theorem replaceAttribute_plain (value : String) (lookup : Lookup) (position : Nat) :
    (replaceAttribute value lookup position : Answering (World η) _).Plain free counting :=
  .bind (.bracket position) fun _ => .ite .failure
    (.ite (.bind (.lift (.bracket _)) fun _ => .pure _) (.pure _))

theorem values_plain (value : String) (lookup : Lookup) (position : Nat) :
    ((values : Attribute (World η)).apply value lookup position).Plain free counting := by
  have computed (key : String) : Answering.Plain free counting (do
      let left ← (Answering.ofOption (number? value) : Answering (World η) _)
      let right ← Answering.ofOption (number? (← Answering.bracket position))
      let result ← Answering.ofOption (arithmetic? key left right)
      return (⟨numberText result, position + 1⟩ : Tag.Resolved)) :=
    .bind (.ofOption _) fun _ => .bind (.bracket position) fun _ => .bind (.ofOption _) fun _ =>
      .bind (.ofOption _) fun _ => .pure _
  have compared (key : String) : Answering.Plain free counting (do
      let text ← (Answering.bracket position : Answering (World η) _)
      return (⟨← Answering.ofOption (comparison? key value text), position + 1⟩ : Tag.Resolved)) :=
    .bind (.bracket position) fun _ => .bind (.ofOption _) fun _ => .pure _
  unfold values
  dsimp only
  refine .bind (.ofOption _) fun key => ?_
  split
  · exact computed _
  · exact computed _
  · exact computed _
  · exact computed _
  · exact compared _
  · exact compared _
  · exact compared _
  · exact replaceAttribute_plain value lookup position
  · exact .bind (.ofOption _) fun _ => .pure _

theorem attributes_plain (free counting : Bool) (handler : Attribute (World η)) (known : handler ∈ attributes)
    (value : String) (lookup : Lookup) (position : Nat) :
    (handler.apply value lookup position).Plain free counting := by
  rw [attributes, List.mem_singleton] at known
  rw [known]
  exact values_plain value lookup position

end Vocabulary

end TagScript
