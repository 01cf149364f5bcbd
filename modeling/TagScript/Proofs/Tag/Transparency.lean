import TagScript.Proofs.Tag.Parallel

/-! What filling sees of the world. A cache only saves reading a text again, and a remark is for the
log; from states that differ in nothing else, filling comes to the same. -/

namespace TagScript.Tag

variable {σ τ α β : Type}

open EvalM (Parallel)

structure Evaluation.Alike (seen : σ → τ) (left right : Evaluation σ) : Prop where
  here : left.Faithful
  there : right.Faithful
  token : left.token = right.token
  bound : left.bound = right.bound
  world : seen left.world = seen right.world

namespace Evaluation.Alike

variable {seen : σ → τ} {left right third : Evaluation σ}

theorem refl (faithful : left.Faithful) : left.Alike seen left :=
  ⟨faithful, faithful, rfl, rfl, rfl⟩

theorem symm (alike : left.Alike seen right) : right.Alike seen left :=
  ⟨alike.there, alike.here, alike.token.symm, alike.bound.symm, alike.world.symm⟩

theorem trans (first : left.Alike seen right) (second : right.Alike seen third) :
    left.Alike seen third :=
  ⟨first.here, second.there, first.token.trans second.token, first.bound.trans second.bound,
    first.world.trans second.world⟩

theorem with_world (alike : left.Alike seen right) {world other : σ}
    (same : seen world = seen other) :
    Evaluation.Alike seen { left with world } { right with world := other } :=
  ⟨⟨alike.here.pieces, alike.here.chains⟩, ⟨alike.there.pieces, alike.there.chains⟩, alike.token,
    alike.bound, same⟩

end Evaluation.Alike

/-- Both come to the same result, in states that are alike, or neither comes to any. -/
def SameOutcome (seen : σ → τ) : Option (α × Evaluation σ) → Option (α × Evaluation σ) → Prop :=
  Option.Rel fun left right => left.1 = right.1 ∧ left.2.Alike seen right.2

namespace SameOutcome

variable {seen : σ → τ} {left right third : Option (α × Evaluation σ)}

theorem symm (same : SameOutcome seen left right) : SameOutcome seen right left := by
  cases same with
  | none => exact .none
  | some both => exact .some ⟨both.1.symm, both.2.symm⟩

theorem trans (first : SameOutcome seen left right) (second : SameOutcome seen right third) :
    SameOutcome seen left third := by
  cases first with
  | none => exact second
  | some both =>
      cases second with
      | some more => exact .some ⟨both.1.trans more.1, both.2.trans more.2⟩

theorem result {given : α} {state : Evaluation σ} (same : SameOutcome seen left right)
    (ran : left = some (given, state)) : ∃ later, right = some (given, later) := by
  subst ran
  cases same with
  | some both =>
      obtain ⟨rfl, _⟩ := both
      exact ⟨_, rfl⟩

end SameOutcome

def EvalM.Agree (seen : σ → τ) (act other : EvalM σ α) : Prop :=
  ∀ left right, left.Alike seen right → SameOutcome seen (act.run left) (other.run right)

theorem Evaluation.Alike.paired {seen : σ → τ} {left right : Evaluation σ}
    (alike : left.Alike seen right) : left.Paired (InvImage Eq seen) right :=
  ⟨alike.here, alike.there, alike.token, alike.bound, alike.world⟩

theorem EvalM.Parallel.agree {seen : σ → τ} {act other : EvalM σ α}
    (parallel : Parallel (InvImage Eq seen) act other (InvImage Eq seen)) : Agree seen act other := by
  intro left right alike
  have both := parallel left right alike.paired
  revert both
  cases act.run left <;> cases other.run right
  · exact fun _ => .none
  · nofun
  · nofun
  · rintro ⟨same, later⟩
    exact .some ⟨same, later.here, later.there, later.token, later.bound, later.world⟩

theorem EvalM.Agree.parallel {seen : σ → τ} {act other : EvalM σ α} (agree : Agree seen act other) :
    Parallel (InvImage Eq seen) act other (InvImage Eq seen) := by
  intro left right paired
  have both := agree left right
    ⟨paired.here, paired.there, paired.token, paired.bound, paired.world⟩
  revert both
  cases act.run left <;> cases other.run right
  · exact fun _ => .none
  · nofun
  · nofun
  · rintro ⟨same, later⟩
    exact .some ⟨same, later.paired⟩

namespace EvalM.Agree

variable {seen : σ → τ} {act other : EvalM σ α}

theorem symm (agree : Agree seen act other) : Agree seen other act := by
  intro left right alike
  exact (agree right left alike.symm).symm

theorem pure (result : α) : Agree seen (pure result : EvalM σ α) (pure result) :=
  (Parallel.done result).agree

theorem bind {next following : α → EvalM σ β} (first : Agree seen act other)
    (rest : ∀ result, Agree seen (next result) (following result)) :
    Agree seen (act >>= next) (other >>= following) :=
  (Parallel.bind first.parallel fun result => (rest result).parallel).agree

end EvalM.Agree

inductive Act.Alike (seen : σ → τ) : Act σ α → Act σ α → Prop
  | done (result : α) {world other : σ} (same : seen world = seen other) :
      Alike seen (.done result world) (.done result other)
  | bracket (position : Nat) {world other : σ} {resume following : Option String → σ → Act σ α}
      (same : seen world = seen other)
      (rest : ∀ answer left right, seen left = seen right →
        Alike seen (resume answer left) (following answer right)) :
      Alike seen (.bracket position world resume) (.bracket position other following)
  | call (procedure : Procedure) {world other : σ} {resume following : CallResult → σ → Act σ α}
      (same : seen world = seen other)
      (rest : ∀ answer left right, seen left = seen right →
        Alike seen (resume answer left) (following answer right)) :
      Alike seen (.call procedure world resume) (.call procedure other following)
  | cancel {world other : σ} {resume following : σ → Act σ α} (same : seen world = seen other)
      (rest : Alike seen (resume world) (following other)) :
      Alike seen (.cancel world resume) (.cancel other following)
  | isCancelled {world other : σ} {resume following : Bool → σ → Act σ α}
      (same : seen world = seen other)
      (rest : ∀ answer, Alike seen (resume answer world) (following answer other)) :
      Alike seen (.isCancelled world resume) (.isCancelled other following)

/-- Remarks are not seen, and nothing that gives tags their meaning depends on more of the world
than is seen. -/
structure Vocabulary.SeesOnly (vocabulary : Vocabulary σ) (seen : σ → τ) : Prop where
  note : ∀ level text world, seen (vocabulary.note level text world) = seen world
  report : ∀ context message left right, seen left = seen right →
    seen (vocabulary.report context message left) = seen (vocabulary.report context message right)
  resolve : ∀ resolver ∈ vocabulary.resolvers, ∀ lookup left right, seen left = seen right →
    Act.Alike seen (resolver.resolve lookup left) (resolver.resolve lookup right)
  apply : ∀ handler ∈ vocabulary.attributes, ∀ value lookup position left right,
    seen left = seen right →
    Act.Alike seen (handler.apply value lookup position left)
      (handler.apply value lookup position right)
  call : ∀ procedure, EvalM.Agree seen (vocabulary.call procedure) (vocabulary.call procedure)

open EvalM (Agree)

section

variable {vocabulary : Vocabulary σ} {seen : σ → τ}

theorem Act.Alike.parallel (sees : vocabulary.SeesOnly seen) {fill fill' : String → EvalM σ String}
    (fills : ∀ text, Parallel (InvImage Eq seen) (fill text) (fill' text) (InvImage Eq seen))
    {lookup : Lookup} {act other : Act σ α} (alike : act.Alike seen other) (memo : Memo) :
    Parallel (InvImage Eq seen) (perform vocabulary fill lookup act memo)
      (perform vocabulary fill' lookup other memo) (InvImage Eq seen) := by
  have sets {world other : σ} (same : seen world = seen other) :
      Parallel (InvImage Eq seen) (EvalM.setWorld world) (EvalM.setWorld other) (InvImage Eq seen) :=
    fun _ _ paired => .some ⟨rfl, paired.with_world same⟩
  induction alike generalizing memo with
  | done result same => exact .bind (sets same) fun _ => .done _
  | bracket position same rest ih =>
      refine .bind (sets same) fun _ => .bind (readBracket_parallel fills lookup memo position) ?_
      rintro ⟨answer, filled⟩
      exact .any_world_bind fun left right same => ih answer left right same filled
  | call procedure same rest ih =>
      refine .bind (sets same) fun _ => .bind (sees.call procedure).parallel fun answer => ?_
      exact .any_world_bind fun left right same => ih answer left right same memo
  | cancel same rest ih => exact .bind (sets same) fun _ => .bind .cancel fun _ => ih memo
  | isCancelled same rest ih =>
      exact .bind (sets same) fun _ => .isCancelled_bind fun answer => ih answer memo

theorem Vocabulary.SeesOnly.matching (sees : vocabulary.SeesOnly seen) (context : Context) :
    vocabulary.Matching (InvImage Eq seen) vocabulary.call vocabulary.call context where
  remark := fun level text left right same =>
    ⟨(sees.note level text left).trans same, Eq.trans same (sees.note level text right).symm⟩
  report := fun message left right same => sees.report context message left right same
  resolve := fun resolver known _ _ fills lookup _ memo =>
    .any_world_bind fun _ _ same => (sees.resolve resolver known lookup _ _ same).parallel sees fills memo
  apply := fun handler known _ _ fills value lookup _ position memo =>
    .any_world_bind fun _ _ same =>
      (sees.apply handler known value lookup position _ _ same).parallel sees fills memo

theorem readPieces_agree (sees : vocabulary.SeesOnly seen) (text : String) :
    Agree seen (vocabulary.readPieces text) (pure (pieces text)) := by
  have quiet (level : LogLevel) (text : String) (left right : σ) (same : InvImage Eq seen left right) :
      InvImage Eq seen (vocabulary.note level text left) right :=
    (sees.note level text left).trans same
  exact (readPieces_quiet quiet text).agree

theorem readChain_agree (body : String) :
    Agree seen (Vocabulary.readChain body : EvalM σ Chain) (pure (Chain.parse body)) :=
  (readChain_quiet body).agree

theorem renderPieces_agree {resolve : Body → EvalM σ String}
    (resolves : ∀ body, Agree seen (resolve body) (resolve body)) (pieces : List Piece) :
    Agree seen (renderPieces resolve pieces) (renderPieces resolve pieces) :=
  (renderPieces_parallel (fun body => (resolves body).parallel) pieces).agree

theorem resolveBody_agree (sees : vocabulary.SeesOnly seen) (context : Context)
    (limit levels : Nat) (body : Body) :
    Agree seen (resolveBody vocabulary context limit levels body)
      (resolveBody vocabulary context limit levels body) :=
  (resolveBody_parallel (sees.matching context) limit levels body).agree

theorem evaluate_agree (sees : vocabulary.SeesOnly seen) (context : Context) (text : String) :
    Agree seen (evaluate vocabulary context text) (evaluate vocabulary context text) :=
  (evaluate_parallel (sees.matching context) text).agree

theorem evaluatePieces_agree (sees : vocabulary.SeesOnly seen) (context : Context)
    (pieces : List Piece) :
    Agree seen (evaluatePieces vocabulary context pieces)
      (evaluatePieces vocabulary context pieces) :=
  (evaluatePieces_parallel (sees.matching context) pieces).agree

end

end TagScript.Tag
