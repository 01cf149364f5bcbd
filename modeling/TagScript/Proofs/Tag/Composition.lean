import TagScript.Proofs.Tag.Closed
import TagScript.Proofs.Tag.Filling

/-! Filling a text in parts. Behind a closed text a tag and what follows it are filled as if they
stood alone, one after the other, and the value of the tag comes out as it is, whatever it holds.
-/

namespace TagScript.Tag

variable {σ : Type} {vocabulary : Vocabulary σ} {calm : Evaluation σ → Prop}

/-- What a tag is replaced by in a filled text: the value of its chain as it is, what its fallback
is filled to, or `null`. -/
def tagText (vocabulary : Vocabulary σ) (context : Context) (body : Body) : EvalM σ String := do
  let fill := renderText vocabulary (resolveBody vocabulary context depthLimit (depthLimit - 1))
  match ← lookUp vocabulary fill context 1 body with
  | .ok value => return value
  | .error failure => return unescape (← withoutValue vocabulary fill context body failure)

theorem renderPieces_tag {resolve : Body → EvalM σ String} (body : Body) (after : List Piece)
    {state : Evaluation σ} (uncancelled : state.isCancelled = false) :
    (renderPieces resolve (.tag body :: after)).run state = (do
      let value ← resolve body
      let back ← renderPieces resolve after
      return value ++ back).run state := by
  rw [renderPieces, EvalM.run_isCancelled_bind, uncancelled]
  rfl

theorem renderPieces_append {resolve : Body → EvalM σ String}
    (uncancelled : ∀ state, calm state → state.isCancelled = false)
    (resolves : ∀ body, EvalM.Keeps calm (resolve body)) (before after : List Piece)
    {state : Evaluation σ} (started : calm state) :
    (renderPieces resolve (before ++ after)).run state = (do
      let front ← renderPieces resolve before
      let back ← renderPieces resolve after
      return front ++ back).run state := by
  induction before generalizing state with
  | nil => simp [renderPieces]
  | cons piece rest ih =>
      cases piece with
      | literal text =>
          rw [List.cons_append, renderPieces, EvalM.run_bind_of_run_eq (ih started)]
          simp only [renderPieces, bind_assoc, pure_bind, String.append_assoc]
      | tag body =>
          have calmNow := uncancelled state started
          rw [List.cons_append, renderPieces_tag _ _ calmNow,
            EvalM.run_bind_of_run_eq (renderPieces_tag body rest calmNow)]
          simp only [bind_assoc, pure_bind, String.append_assoc]
          refine (resolves body).run_bind_congr (fun value later calmLater => ?_) started
          rw [EvalM.run_bind_of_run_eq (ih calmLater)]
          simp only [bind_assoc, pure_bind]

theorem unescape_resolveBody (keeps : vocabulary.Keeps calm Unmarked) (context : Context)
    (body : Body) {state : Evaluation σ} (started : calm state) :
    (do return unescape (← resolveBody vocabulary context depthLimit depthLimit body)).run state =
      (tagText vocabulary context body).run state := by
  have fills := renderText_keeps keeps (resolveBody_keeps keeps context depthLimit (depthLimit - 1))
  have body_eq := resolveBody_succ vocabulary context depthLimit (depthLimit - 1) body
  rw [show depthLimit - 1 + 1 = depthLimit from rfl] at body_eq
  rw [body_eq]
  simp only [tagText, bind_assoc]
  refine (lookUp_ensures keeps fills context 1 body).run_bind_congr ?_ started
  intro outcome later valued
  cases outcome with
  | ok value => simp [unescape_escape (valued.2 value rfl)]
  | error failure => rfl

/-- A closed text, a tag and any text are filled one after the other. Nothing the tag comes to is
read again: it stands in the result character for character. -/
theorem evaluatePieces_append_tag (keeps : vocabulary.Keeps calm Unmarked)
    (uncancelled : ∀ state, calm state → state.isCancelled = false) (context : Context)
    {before body : String} (after : String) (closed : Closed before)
    (whole : pieces ("<" ++ body ++ ">") = [.tag (Body.ofText body)])
    {state : Evaluation σ} (started : calm state) :
    pieces (before ++ ("<" ++ body ++ ">") ++ after) =
        pieces before ++ [.tag (Body.ofText body)] ++ pieces after ∧
      (evaluatePieces vocabulary context
          (pieces (before ++ ("<" ++ body ++ ">") ++ after))).run state = (do
        let front ← evaluatePieces vocabulary context (pieces before)
        let value ← tagText vocabulary context (Body.ofText body)
        let back ← evaluatePieces vocabulary context (pieces after)
        return front ++ value ++ back).run state := by
  have resolves := resolveBody_keeps keeps context depthLimit depthLimit
  have cut := pieces_append_tag after closed whole
  refine ⟨cut, ?_⟩
  rw [cut, List.append_assoc, List.singleton_append]
  unfold evaluatePieces
  rw [EvalM.run_bind_of_run_eq (renderPieces_append uncancelled resolves _ _ started)]
  simp only [bind_assoc, pure_bind, unescape_append]
  refine (renderPieces_keeps resolves (pieces before)).run_bind_congr ?_ started
  intro front later calmLater
  rw [EvalM.run_bind_of_run_eq (renderPieces_tag _ _ (uncancelled later calmLater)),
    EvalM.run_bind_of_run_eq (unescape_resolveBody keeps context _ calmLater).symm]
  simp only [bind_assoc, pure_bind, unescape_append, String.append_assoc]

def syntaxVocabulary : Vocabulary (List String) where
  resolvers := [⟨"syntax", fun lookup => OptionT.mk fun asked =>
    .done (some ⟨"<b>|[x];", 1⟩) ((lookup.key? 0).getD "" :: asked)⟩]
  attributes := []
  report := fun _ message asked => message :: asked
  note := fun _ _ asked => asked
  call := fun _ => StateT.lift none
  timeout := none

theorem syntaxVocabulary_keeps :
    syntaxVocabulary.Keeps (fun state => state.isCancelled = false) Unmarked where
  caches := fun _ _ _ started => started
  report := fun _ _ _ started => started
  note := fun _ _ _ started => started
  resolve := by
    intro resolver member lookup state started
    obtain rfl := List.mem_singleton.1 member
    refine ⟨started, ?_⟩
    rintro resolved ⟨⟩
    simp [Unmarked, isStandIn, standIns]
  apply := by simp [syntaxVocabulary]

theorem closed_comparison : Closed "a < b " where
  noBackslash := by decide
  anglesFollowed := by
    have read : pieces "a < b " = [.literal "a < b "] := by decide +kernel
    intro literal member before after split
    rw [read] at member
    obtain rfl := Piece.literal.inj (List.mem_singleton.1 member)
    have chars : "a < b ".toList = ['a', ' ', '<', ' ', 'b', ' '] := by decide
    rw [chars] at split
    simp only [List.cons_eq_append_iff, List.cons.injEq, Char.reduceEq, false_and, and_false,
      exists_false, or_false, false_or, true_and, List.nil_eq, List.append_eq_nil_iff,
      reduceCtorEq] at split
    obtain ⟨_, _, _, _, _, behind⟩ := split
    exact ⟨' ', ['b', ' '], behind, by decide⟩

theorem evaluatePieces_append_tag_syntax :
    Closed "a < b " ∧ pieces ("<" ++ "raw" ++ ">") = [.tag (Body.ofText "raw")] ∧
      (evaluatePieces syntaxVocabulary {} (pieces ("a < b " ++ ("<" ++ "raw" ++ ">") ++ "<c>"))).run
          ⟨.empty, .empty, false, none, []⟩ = (do
        let front ← evaluatePieces syntaxVocabulary {} (pieces "a < b ")
        let value ← tagText syntaxVocabulary {} (Body.ofText "raw")
        let back ← evaluatePieces syntaxVocabulary {} (pieces "<c>")
        return front ++ value ++ back).run ⟨.empty, .empty, false, none, []⟩ := by
  have whole : pieces ("<" ++ "raw" ++ ">") = [.tag (Body.ofText "raw")] := by decide +kernel
  exact ⟨closed_comparison, whole, (evaluatePieces_append_tag syntaxVocabulary_keeps
    (fun _ started => started) {} "<c>" closed_comparison whole rfl).2⟩

end TagScript.Tag
