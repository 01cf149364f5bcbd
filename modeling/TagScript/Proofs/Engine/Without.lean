import TagScript.Proofs.Engine.Braces
import TagScript.Proofs.Engine.Plain

/-! Engines without some of their tags. What makes no use of a tag is done by an engine without it in
the same way. -/

namespace TagScript

variable {η σ : Type}

namespace Tag

def Resolver.except (hidden : Lookup → Bool) (resolver : Resolver σ) : Resolver σ :=
  { resolver with
    resolve := fun lookup => if hidden lookup then failure else resolver.resolve lookup }

def Lookup.isProcedure (lookup : Lookup) : Bool := lookup.keyIs 0 "proc"

theorem fillArgumentsFrom_of_tagless (vocabulary other : Vocabulary σ) (context : Context)
    {words : List String} (tagless : ∀ word ∈ words, mayHoldTags word = false) (depth : Nat) :
    fillArgumentsFrom vocabulary context depth words =
      fillArgumentsFrom other context depth words := by
  induction words generalizing depth with
  | nil => rfl
  | cons word rest ih =>
      have following := ih fun found member => tagless found (List.mem_cons_of_mem word member)
      have plain := tagless word List.mem_cons_self
      unfold fillArgumentsFrom
      simp only [following, evaluateBounded_of_tagless _ _ plain]

end Tag

namespace Engine

/-- The engine with no tags for these lookups. -/
def withoutTags (hidden : Tag.Lookup → Bool) (engine : Engine η) : Engine η :=
  { engine with resolvers := engine.resolvers.map (Tag.Resolver.except hidden) }

/-- The tags of the engine are plain, and only `proc` calls procedures. -/
structure Uncalling (engine : Engine η) : Prop where
  resolvers : ∀ resolver ∈ engine.resolvers, ∀ lookup, lookup.isProcedure = false →
    (resolver.resolve lookup).Plain false false
  attributes : ∀ handler ∈ engine.attributes, ∀ value lookup position,
    (handler.apply value lookup position).Plain false false

theorem Uncalling.withoutTags {engine : Engine η} (uncalling : engine.Uncalling) :
    ∀ resolver ∈ (engine.withoutTags Tag.Lookup.isProcedure).resolvers, ∀ lookup,
      (resolver.resolve lookup).Plain false false := by
  intro resolver known lookup
  obtain ⟨whole, member, rfl⟩ := List.mem_map.1 known
  unfold Tag.Resolver.except
  dsimp only
  split
  · exact .failure
  · exact uncalling.resolvers whole member lookup (by simpa using ‹¬ lookup.isProcedure = true›)

theorem fillEntry_of_tagless (engine other : Engine η) (same : engine.host = other.host)
    (fire fire' : Firing η) (ref : QueueRef) {entry : Entry} (plain : entry.hasDefinitions = false)
    (tagless : ∀ word ∈ entry.arguments, Tag.mayHoldTags word = false) :
    engine.fillEntry fire ref entry = other.fillEntry fire' ref entry := by
  have fills (context : Tag.Context) := Tag.fillArgumentsFrom_of_tagless
    (engine.vocabulary fire) (other.vocabulary fire') context tagless 0
  have unsubstituted (engine : Engine η) (queue : Queue) :
      engine.substituteDefinitions queue entry = pure entry := by
    rw [substituteDefinitions, plain]
    rfl
  unfold fillEntry context Tag.fillArguments
  simp only [unsubstituted, same, pure_bind, fills]

end Engine

end TagScript
