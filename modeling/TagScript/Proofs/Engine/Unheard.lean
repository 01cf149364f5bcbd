import TagScript.Proofs.Engine.Congruent
import TagScript.Proofs.Engine.Twin
import TagScript.Proofs.Tag.Caching

/-! The log is for whoever watches. Nothing that scripts do depends on what was logged before, so
running them comes to the same in worlds that differ in their logs alone. What the caches save is told
by the log alone: filling texts does not depend on it. -/

namespace TagScript

variable {η α : Type}

open Tag.EvalM (Parallel)

def RunM.Unheard (act other : RunM η α) : Prop :=
  Parallel (InvImage Eq World.silent) act other (InvImage Eq World.silent)

theorem World.reads_silent {γ : Type} (part : World η → γ)
    (blind : ∀ world : World η, part world.silent = part world) {left right : World η}
    (same : left.silent = right.silent) : part left = part right := by
  rw [← blind left, same, blind]

theorem RunM.unheard_congruent : RunM.Congruent (@RunM.Unheard η) where
  pure := .done
  bind := .bind
  world_bind := fun {_ next _} blind rest => .any_world_bind fun _ right same => by
    rw [World.reads_silent next blind same]
    exact rest right
  update := fun {change} deaf => .modifyWorld fun _ _ same =>
    World.reads_silent (fun world => (change world).silent) deaf same
  updateGet := fun {_ change} deaf => .updateGet fun _ _ same => Prod.mk.inj (World.reads_silent
    (fun world => ((change world).1, (change world).2.silent)) deaf same)
  outOfBudget := fun _ _ _ => .none

namespace Engine

variable {engine : Engine η}

structure Deaf (engine : Engine η) : Prop where
  commands : ∀ name, ∀ command ∈ engine.commands.find? name, command ∈ Command.builtins
  tags : ∀ fire other : Firing η,
    (∀ procedure, RunM.Unheard (callProcedure fire procedure) (callProcedure other procedure)) →
    ∀ context, (engine.vocabulary fire).Matching (InvImage Eq World.silent) (callProcedure fire)
      (callProcedure other) context

theorem Deaf.congruent (deaf : engine.Deaf) :
    engine.Congruent RunM.Unheard engine.resolvers engine.attributes where
  acts := RunM.unheard_congruent
  commands := fun name command found =>
    RunM.unheard_congruent.builtins command (deaf.commands name command found)
  fills := fun fire other fires context words =>
    have matching := deaf.tags fire other (RunM.unheard_congruent.callProcedure fires) context
    Tag.underToken_parallel (Tag.fillArgumentsFrom_parallel matching 0 words) false

theorem silent_indistinct (hidden : Tag.Lookup → Bool) (context : Tag.Context) :
    Indistinct (InvImage Eq (World.silent (η := η))) hidden context where
  face := fun {_ _} same ref =>
    World.reads_silent (fun world => (world.queue ref).face) (fun _ => rfl) same
  setting := fun {_ _} same => World.reads_silent World.setting (fun _ => rfl) same
  emit := fun {_ _} _ same => ⟨same, same⟩
  jot := fun {_ _} note same =>
    World.reads_silent (fun world => (world.jot note).silent) (fun _ => rfl) same
  property := fun {left right sooner later} same following lookup _ _ _ ref => by
    have queue := World.reads_silent (World.queue ref) (fun _ => rfl) same
    have time := World.reads_silent (clock context) (fun _ => rfl) following
    rw [queue, time]

theorem builtin_deaf (host : Host) : (builtin host : Engine η).Deaf where
  commands := (builtin_standard host).commands
  tags := by
    intro fire other calls context
    have same : (Tag.Resolver.except fun _ => false) = (id : Tag.Resolver (World η) → _) := rfl
    have all : (builtin host : Engine η).withoutTags (fun _ => false) = builtin host := by
      rw [withoutTags, same, List.map_id]
    have counted (left right : World η) (calls : Nat) (same : left.silent = right.silent) :
        { left with calls }.silent = { right with calls }.silent :=
      congrArg (fun world : World η => ({ world with calls } : World η)) same
    exact all ▸ builtin_matching (silent_indistinct _ context) host (.inr ⟨counted, calls⟩) fire

/-- The engine with a record of what its tags are asked. -/
def recorded (record : Tag.Inquiry → World η → World η) (engine : Engine η) : Engine η :=
  { engine with
    resolvers := engine.resolvers.map (Tag.Resolver.recorded record)
    attributes := engine.attributes.map (Tag.Attribute.recorded record) }

theorem Deaf.recorded (deaf : engine.Deaf) {record : Tag.Inquiry → World η → World η}
    (inSight : Tag.InSight World.silent record) : (engine.recorded record).Deaf where
  commands := deaf.commands
  tags := fun fire other calls context =>
    (deaf.tags fire other calls context).recorded inSight (deaf.tags fire other calls context).report

theorem Deaf.evaluate_cacheBlind (deaf : engine.Deaf) (budget : Nat) (context : Tag.Context)
    (text : String) : Tag.EvalM.CacheBlind World.silent
      (Tag.evaluate (engine.vocabulary (engine.fire budget)) context text) :=
  have calls := RunM.unheard_congruent.callProcedure (deaf.congruent.fire budget)
  (Tag.evaluate_parallel (deaf.tags _ _ calls context) text).agree.cacheBlind

end Engine

def World.noteInquiry (inquiry : Tag.Inquiry) (world : World (List Tag.Inquiry)) :
    World (List Tag.Inquiry) :=
  { world with host := inquiry :: world.host }

theorem World.noteInquiry_inSight : Tag.InSight World.silent World.noteInquiry :=
  fun inquiry _ _ same => congrArg (World.noteInquiry inquiry) same

/-- The caches are transparent, the first one even if others use it between the two turns of a call.
So filling a text comes to the same whatever they hold: to the same value, with the same record of what
was asked and reported, where tags do not depend on what cannot be seen. The built-in tags are of that
kind, with all the procedures that they call: what was logged before makes no difference to them. -/
theorem caches_transparent :
    Tag.Cache.Transparent Tag.pieces (Tag.Cache.lookupInTurns Tag.pieces) ∧
    (∀ cache, Tag.Cache.Used Tag.pieces .empty cache → ∀ text serial,
      let filed := cache.file text ⟨Tag.pieces text, serial⟩
      filed.1.value = Tag.pieces text ∧ (cache.size < Tag.Cache.capacity → ∀ later,
        Tag.Cache.Used Tag.pieces filed.2 later →
        later.lookupInTurns Tag.pieces text = (filed.1, later))) ∧
    Tag.Cache.Transparent Tag.Chain.parse (Tag.Cache.lookup Tag.Chain.parse) ∧
    (∀ (σ τ : Type) (vocabulary : Tag.Vocabulary σ) (seen : σ → τ), vocabulary.SeesOnly seen →
      ∀ record : Tag.Inquiry → σ → σ, Tag.InSight seen record → ∀ context text,
      Tag.EvalM.CacheBlind seen (Tag.evaluate (vocabulary.recorded record) context text)) ∧
    ∀ (host : Host) (budget : Nat) (context : Tag.Context) (text : String),
      let engine := (Engine.builtin host).recorded World.noteInquiry
      Tag.EvalM.CacheBlind World.silent
        (Tag.evaluate (engine.vocabulary (engine.fire budget)) context text) := by
  refine ⟨Tag.Cache.transparent_lookupInTurns _, ?_, Tag.Cache.transparent_lookup _, ?_, ?_⟩
  · intro cache used text serial
    exact Tag.Cache.file_in_turn used text serial
  · intro σ τ vocabulary seen sees record inSight context text
    exact Tag.evaluate_cacheBlind sees inSight context text
  · intro host budget context text
    have deaf := (Engine.builtin_deaf host).recorded World.noteInquiry_inSight
    exact deaf.evaluate_cacheBlind budget context text

end TagScript
