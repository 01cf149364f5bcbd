import TagScript.Proofs.Engine.Moves
import TagScript.Proofs.Engine.Plain

/-! Tags that leave the queues and the scheduler alone. What happens while a procedure runs is not
the doing of the tag that called it. All built-in tags are of this kind. -/

namespace TagScript

variable {η α β : Type}

theorem World.Beside.refl (world : World η) : world.Beside world := ⟨rfl, rfl, rfl⟩

theorem World.Beside.trans {world between later : World η} (first : world.Beside between)
    (second : between.Beside later) : world.Beside later :=
  ⟨second.queues.trans first.queues, second.live.trans first.live,
    second.scheduler.trans first.scheduler⟩

namespace Tag

inductive Act.Discreet : World η → Act (World η) α → Prop
  | done {world later : World η} (result : α) (beside : world.Beside later) :
      Discreet world (.done result later)
  | bracket {world later : World η} (position : Nat) {resume : Option String → Acting (World η) α}
      (beside : world.Beside later)
      (rest : ∀ answer changed, Discreet changed (resume answer changed)) :
      Discreet world (.bracket position later resume)
  | call {world later : World η} (procedure : Procedure) {resume : CallResult → Acting (World η) α}
      (beside : world.Beside later)
      (rest : ∀ answer changed, Discreet changed (resume answer changed)) :
      Discreet world (.call procedure later resume)
  | cancel {world later : World η} {resume : Acting (World η) α} (beside : world.Beside later)
      (rest : Discreet later (resume later)) : Discreet world (.cancel later resume)
  | isCancelled {world later : World η} {resume : Bool → Acting (World η) α}
      (beside : world.Beside later) (rest : ∀ answer, Discreet later (resume answer later)) :
      Discreet world (.isCancelled later resume)

def Acting.Discreet (act : Acting (World η) α) : Prop := ∀ world, Act.Discreet world (act world)

def Answering.Discreet (act : Answering (World η) α) : Prop := Acting.Discreet act.run

theorem Act.Discreet.from_beside {act : Act (World η) α} {world later : World η}
    (beside : world.Beside later) (discreet : Act.Discreet later act) :
    Act.Discreet world act := by
  cases discreet with
  | done result last => exact .done result (beside.trans last)
  | bracket position last rest => exact .bracket position (beside.trans last) rest
  | call procedure last rest => exact .call procedure (beside.trans last) rest
  | cancel last rest => exact .cancel (beside.trans last) rest
  | isCancelled last rest => exact .isCancelled (beside.trans last) rest

theorem Act.Discreet.andThen {act : Act (World η) α} {world : World η}
    {next : α → Acting (World η) β} (first : Act.Discreet world act)
    (following : ∀ result, (next result).Discreet) : Act.Discreet world (act.andThen next) := by
  induction first with
  | done result beside => exact (following result _).from_beside beside
  | bracket position beside _ ih => exact .bracket position beside ih
  | call procedure beside _ ih => exact .call procedure beside ih
  | cancel beside _ ih => exact .cancel beside ih
  | isCancelled beside _ ih => exact .isCancelled beside ih

namespace Acting.Discreet

theorem pure (result : α) : (Pure.pure result : Acting (World η) α).Discreet :=
  fun world => .done result (.refl world)

theorem bind {act : Acting (World η) α} {next : α → Acting (World η) β} (first : act.Discreet)
    (rest : ∀ result, (next result).Discreet) : (act >>= next).Discreet :=
  fun world => (first world).andThen rest

theorem world : (Acting.world : Acting (World η) (World η)).Discreet :=
  fun world => .done world (.refl world)

theorem modify {change : World η → World η}
    (beside : ∀ world : World η, world.Beside (change world)) :
    (Acting.modify change).Discreet :=
  fun world => .done () (beside world)

theorem bracket (position : Nat) : (Acting.bracket position : Acting (World η) _).Discreet :=
  fun world => .bracket position (.refl world) fun answer changed => .done answer (.refl changed)

theorem call (procedure : Procedure) : (Acting.call procedure : Acting (World η) _).Discreet :=
  fun world => .call procedure (.refl world) fun answer changed => .done answer (.refl changed)

end Acting.Discreet

theorem callCounted_discreet (procedure : Procedure) :
    (Vocabulary.callCounted procedure : Acting (World η) _).Discreet := by
  refine .bind .world fun world => ?_
  split
  · exact .bind (.modify fun _ => ⟨rfl, rfl, rfl⟩) fun _ => .pure _
  · refine .bind (.modify fun _ => ⟨rfl, rfl, rfl⟩) fun _ => .bind (.call procedure) fun result =>
      .bind (.modify fun _ => ⟨rfl, rfl, rfl⟩) fun _ => ?_
    split
    · exact .pure _
    · exact .bind (.modify fun _ => ⟨rfl, rfl, rfl⟩) fun _ => .pure _

theorem Acting.Plain.discreet {free counting : Bool} {act : Acting (World η) α}
    (plain : act.Plain free counting) :
    act.Discreet := by
  induction plain with
  | pure result => exact .pure result
  | bind _ _ first rest => exact .bind first rest
  | world => exact .world
  | tell aloof =>
      refine .modify fun world => ?_
      obtain ⟨events, host, same⟩ := aloof world
      rw [same]
      exact ⟨rfl, rfl, rfl⟩
  | bracket position => exact .bracket position
  | call procedure _ => exact .call procedure
  | counted procedure _ => exact callCounted_discreet procedure
  | cancel => exact fun world => .cancel (.refl world) (.done () (.refl world))
  | isCancelled =>
      exact fun world => .isCancelled (.refl world) fun answer => .done answer (.refl world)

theorem Act.Discreet.keeps {call : Procedure → EvalM (World η) CallResult} {good : α → Prop}
    (calm : World η → Prop)
    (stays : ∀ {world later : World η}, world.Beside later → calm world → calm later)
    (calls : ∀ procedure, EvalM.Keeps (fun state => calm state.world) (call procedure))
    (allGood : ∀ result, good result) {act : Act (World η) α} {world : World η}
    (discreet : Act.Discreet world act) (started : calm world) (state : Evaluation (World η)) :
    act.Keeps call (fun state => calm state.world) good state := by
  induction discreet generalizing state with
  | done result beside => exact ⟨stays beside started, allGood result⟩
  | bracket position beside _ ih =>
      exact ⟨stays beside started, fun answer later _ kept => ih answer later.world kept later⟩
  | call procedure beside _ ih =>
      exact fun answer later called => ih answer later.world
        (calls procedure _ answer later (stays beside started) called) later
  | cancel beside _ ih => exact ih (stays beside started) _
  | isCancelled beside _ ih => exact ih _ (stays beside started) _

end Tag

namespace Vocabulary

open Tag (Attribute Lookup Resolver)

theorem resolvers_discreet (resolver : Resolver (World η)) (known : resolver ∈ resolvers)
    (lookup : Lookup) : (resolver.resolve lookup).Discreet :=
  Tag.Acting.Plain.discreet (resolvers_plain true resolver known lookup)

theorem attributes_discreet (handler : Attribute (World η)) (known : handler ∈ attributes)
    (value : String) (lookup : Lookup) (position : Nat) :
    (handler.apply value lookup position).Discreet :=
  Tag.Acting.Plain.discreet (attributes_plain true true handler known value lookup position)

end Vocabulary

end TagScript
