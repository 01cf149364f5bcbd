import TagScript.Proofs.Tag.Bracketed
import TagScript.Text.Cut

/-! Texts put together from brackets and bars, and read again. A chain of keys with a bracket each is
read link by link, and a list of tags tag by tag. A list of values is cut at its bars into just these
values if none of them holds a bar, and into others if one does. -/

namespace TagScript

namespace Text

variable {separator : Char} {piece : List Char} {pieces : List (List Char)}

theorem cutAll_of_not_mem (free : separator ∉ piece) : cutAll separator piece = [piece] := by
  induction piece with
  | nil => rfl
  | cons c rest ih =>
      simp only [List.mem_cons, not_or] at free
      rw [cutAll, if_neg (Ne.symm free.1), ih free.2]

theorem cutAll_append (free : separator ∉ piece) (rest : List Char) :
    cutAll separator (piece ++ separator :: rest) = piece :: cutAll separator rest := by
  induction piece with
  | nil => rw [List.nil_append, cutAll, if_pos rfl]
  | cons c piece ih =>
      simp only [List.mem_cons, not_or] at free
      rw [List.cons_append, cutAll, if_neg (Ne.symm free.1), ih free.2]

theorem not_mem_of_mem_cutAll {text : List Char} (member : piece ∈ cutAll separator text) :
    separator ∉ piece := by
  induction text generalizing piece with
  | nil =>
      obtain rfl := List.mem_singleton.1 member
      exact List.not_mem_nil
  | cons c rest ih =>
      rw [cutAll] at member
      split at member
      · rcases List.mem_cons.1 member with rfl | behind
        · exact List.not_mem_nil
        · exact ih behind
      · rename_i differs
        split at member
        · rename_i first others cut
          rw [cut] at ih
          rcases List.mem_cons.1 member with rfl | behind
          · exact List.not_mem_cons_of_ne_of_not_mem (Ne.symm differs) (ih List.mem_cons_self)
          · exact ih (List.mem_cons_of_mem _ behind)
        · obtain rfl := List.mem_singleton.1 member
          exact List.not_mem_cons_of_ne_of_not_mem (Ne.symm differs) List.not_mem_nil

theorem cutAll_intercalate (filled : pieces ≠ []) (free : ∀ piece ∈ pieces, separator ∉ piece) :
    cutAll separator (List.intercalate [separator] pieces) = pieces := by
  induction pieces with
  | nil => exact absurd rfl filled
  | cons first rest ih =>
      obtain ⟨freeFirst, freeRest⟩ := List.forall_mem_cons.1 free
      cases rest with
      | nil => rw [List.intercalate_singleton, cutAll_of_not_mem freeFirst]
      | cons second rest =>
          rw [List.intercalate_cons_cons, List.append_assoc, List.singleton_append,
            cutAll_append freeFirst, ih (List.cons_ne_nil _ _) freeRest]

theorem cutAllText_intercalate_iff {values : List String} (filled : values ≠ []) :
    cutAllText separator (String.intercalate (String.singleton separator) values) = values ↔
      ∀ value ∈ values, separator ∉ value.toList := by
  have joined : (String.intercalate (String.singleton separator) values).toList =
      List.intercalate [separator] (values.map String.toList) := by
    rw [String.toList_intercalate, String.toList_singleton]
  rw [cutAllText, joined]
  constructor
  · intro same value member
    rw [← same] at member
    obtain ⟨piece, cut, rfl⟩ := List.mem_map.1 member
    rw [String.toList_ofList]
    exact not_mem_of_mem_cutAll cut
  · intro free
    rw [cutAll_intercalate (by simpa using filled) (by simpa using free), List.map_map]
    exact List.map_id'' (fun value => String.ofList_toList) values

end Text

namespace Tag

/-! Chains of keys with a bracket each. -/

def linked (links : List (String × String)) : String :=
  String.intercalate "." (links.map fun (key, text) => key ++ "[" ++ text ++ "]")

structure Linkable (link : String × String) : Prop where
  key : ∀ c ∈ link.1.toList, c ∉ ['<', '>', '[', ']', '.', '|', '\\']
  text : Bracketed link.2.toList
  bare : '\\' ∉ link.2.toList

theorem linkable_of_word {key text : String}
    (word : key.toList.all (fun c => decide (c ∉ ['<', '>', '[', ']', '.', '|', '\\'])) = true)
    (bracketed : Bracketed text.toList) (bare : '\\' ∉ text.toList) : Linkable (key, text) :=
  ⟨free_of_all word, bracketed, bare⟩

variable {key inner rest : List Char}

theorem Nesting.step_of_key {nesting : Nesting} {c : Char}
    (plain : c ∉ ['<', '>', '[', ']', '.', '|', '\\']) : nesting.step c = nesting :=
  Nesting.step_of_free (by simp_all)

theorem cutFallbackFrom_key (plain : ∀ c ∈ key, c ∉ ['<', '>', '[', ']', '.', '|', '\\']) :
    cutFallbackFrom .outside (key ++ rest) =
      (key ++ (cutFallbackFrom .outside rest).1, (cutFallbackFrom .outside rest).2) := by
  induction key with
  | nil => rfl
  | cons c key ih =>
      obtain ⟨here, others⟩ := List.forall_mem_cons.1 plain
      have noBar : c ≠ '|' := by
        rintro rfl
        simp at here
      rw [List.cons_append, cutFallbackFrom_cons, if_neg (by simp [noBar]), Nesting.step_of_key here,
        ih others]
      rfl

theorem cutFallbackFrom_square (inside : Bracketed inner) :
    cutFallbackFrom .outside ('[' :: (inner ++ ']' :: rest)) =
      ('[' :: (inner ++ ']' :: (cutFallbackFrom .outside rest).1),
        (cutFallbackFrom .outside rest).2) := by
  rw [cutFallbackFrom_cons, if_neg (by simp), inside.cutFallbackFrom_inside Nesting.isOutside_of_square,
    cutFallbackFrom_cons, if_neg (by simp), Nesting.step_square_square]

theorem hasOuterTagFrom_key (plain : ∀ c ∈ key, c ∉ ['<', '>', '[', ']', '.', '|', '\\']) :
    hasOuterTagFrom 0 (key ++ rest) = hasOuterTagFrom 0 rest := by
  induction key with
  | nil => rfl
  | cons c key ih =>
      obtain ⟨here, others⟩ := List.forall_mem_cons.1 plain
      rw [List.cons_append, hasOuterTagFrom_of_not_mem (by simp_all), ih others]

theorem hasOuterTagFrom_square (inside : Bracketed inner) :
    hasOuterTagFrom 0 ('[' :: (inner ++ ']' :: rest)) = hasOuterTagFrom 0 rest := by
  rw [hasOuterTagFrom, inside.hasOuterTagFrom_inside, hasOuterTagFrom]

theorem segmentsFrom_key (plain : ∀ c ∈ key, c ∉ ['<', '>', '[', ']', '.', '|', '\\'])
    (afterDigit : Bool) :
    ∃ later, segmentsFrom afterDigit .outside (key ++ rest) =
      key.foldr ontoFirst (segmentsFrom later .outside rest) := by
  induction key generalizing afterDigit with
  | nil => exact ⟨afterDigit, rfl⟩
  | cons c key ih =>
      obtain ⟨here, others⟩ := List.forall_mem_cons.1 plain
      have noDot : c ≠ '.' := by
        rintro rfl
        simp at here
      obtain ⟨later, read⟩ := ih others c.isDigit
      refine ⟨later, ?_⟩
      rw [List.cons_append, segmentsFrom, if_neg (by simp [noDot]), Nesting.step_of_key here, read,
        List.foldr_cons]

theorem segmentsFrom_link (plain : ∀ c ∈ key, c ∉ ['<', '>', '[', ']', '.', '|', '\\'])
    (inside : Bracketed inner) (afterDigit : Bool) :
    segmentsFrom afterDigit .outside (key ++ '[' :: (inner ++ ']' :: rest)) =
      (key ++ '[' :: (inner ++ [']'])).foldr ontoFirst (segmentsFrom false .outside rest) := by
  obtain ⟨later, read⟩ := segmentsFrom_key plain afterDigit
  rw [read, segmentsFrom_square inside, List.foldr_append]

theorem toList_linked_cons (key text : String) (links : List (String × String)) :
    (linked ((key, text) :: links)).toList = key.toList ++ '[' :: (text.toList ++ ']' ::
      match links with
      | [] => []
      | _ :: _ => '.' :: (linked links).toList) := by
  cases links with
  | nil => simp [linked]
  | cons next links => simp [linked, String.intercalate_cons_cons]

variable {links : List (String × String)}

theorem bodyOf_linked (linkable : ∀ link ∈ links, Linkable link) :
    Body.ofText (linked links) = ⟨linked links, linked links, none, false⟩ := by
  -- Both scans leave a key and its bracket as they came, outside of everything.
  have read : cutFallbackFrom .outside (linked links).toList = ((linked links).toList, none) ∧
      hasOuterTagFrom 0 (linked links).toList = false := by
    induction links with
    | nil => simp [linked, cutFallbackFrom, hasOuterTagFrom]
    | cons link links ih =>
        obtain ⟨key, text⟩ := link
        obtain ⟨⟨plain, inside, _⟩, others⟩ := List.forall_mem_cons.1 linkable
        rw [toList_linked_cons, cutFallbackFrom_key plain, cutFallbackFrom_square inside,
          hasOuterTagFrom_key plain, hasOuterTagFrom_square inside]
        cases links with
        | nil => exact ⟨rfl, rfl⟩
        | cons next links =>
            obtain ⟨cut, outer⟩ := ih others
            dsimp only
            rw [cutFallbackFrom_cons, if_neg (by simp), Nesting.step_of_free (by decide), cut,
              hasOuterTagFrom_of_not_mem (by decide), outer]
            exact ⟨rfl, rfl⟩
  simp [Body.ofText, cutFallback, hasOuterTag, read.1, read.2]

theorem parse_linked (filled : links ≠ []) (linkable : ∀ link ∈ links, Linkable link) :
    Chain.parse (linked links) = ⟨linked links, links.map fun link => ⟨link.1, link.2⟩⟩ := by
  have read (afterDigit : Bool) :
      (segmentsFrom afterDigit .outside (linked links).toList).map Component.ofSegment =
        links.map fun link => ⟨link.1, link.2⟩ := by
    induction links generalizing afterDigit with
    | nil => exact absurd rfl filled
    | cons link links ih =>
        obtain ⟨key, text⟩ := link
        obtain ⟨⟨plain, inside, _⟩, others⟩ := List.forall_mem_cons.1 linkable
        have component : Component.ofSegment (key.toList ++ '[' :: (text.toList ++ [']'])) =
            ⟨key, text⟩ := by
          rw [ofSegment_square (fun c member => by have := plain c member; simp_all) inside, if_pos rfl,
            String.ofList_toList, String.ofList_toList]
        rw [toList_linked_cons, segmentsFrom_link plain inside]
        cases links with
        | nil =>
            rw [segmentsFrom, foldr_ontoFirst, List.append_nil, List.map_singleton, component]
            rfl
        | cons next links =>
            dsimp only
            rw [segmentsFrom, if_pos (by simp [Nesting.outside, Nesting.isOutside]), foldr_ontoFirst,
              List.append_nil, List.map_cons, component, ih (List.cons_ne_nil _ _) others]
            rfl
  rw [Chain.parse, segments, read]

/-! Lists of tags with a bar between neighbours. -/

def angled (body : String) : String := "<" ++ body ++ ">"

def tagList (bodies : List String) : String := String.intercalate "|" (bodies.map angled)

structure Taggable (body : String) : Prop where
  bracketed : Bracketed body.toList
  bare : '\\' ∉ body.toList
  opens : ∀ behind, opensTag (body.toList ++ behind) = true

theorem taggable_linked {key text : String} (linkable : ∀ link ∈ (key, text) :: links, Linkable link)
    (opens : ∀ behind, opensTag (key.toList ++ behind) = true) :
    Taggable (linked ((key, text) :: links)) where
  bracketed := by
    clear opens
    induction links generalizing key text with
    | nil =>
        obtain ⟨plain, inside, _⟩ := linkable _ List.mem_cons_self
        rw [toList_linked_cons]
        exact (Bracketed.of_plain fun c member => by have := plain c member; simp_all).append
          (.square inside .nil)
    | cons next links ih =>
        obtain ⟨⟨plain, inside, _⟩, others⟩ := List.forall_mem_cons.1 linkable
        rw [toList_linked_cons]
        exact (Bracketed.of_plain fun c member => by have := plain c member; simp_all).append
          (.square inside (.plain (by decide) (ih others)))
  bare := by
    clear opens
    induction links generalizing key text with
    | nil =>
        obtain ⟨plain, _, bare⟩ := linkable _ List.mem_cons_self
        have bareKey : '\\' ∉ key.toList := fun member => plain _ member (by simp)
        rw [toList_linked_cons]
        simp [bareKey, bare]
    | cons next links ih =>
        obtain ⟨⟨plain, _, bare⟩, others⟩ := List.forall_mem_cons.1 linkable
        have bareKey : '\\' ∉ key.toList := fun member => plain _ member (by simp)
        rw [toList_linked_cons]
        simp [bareKey, bare, ih others]
  opens behind := by
    rw [toList_linked_cons, List.append_assoc]
    exact opens _

variable {body : String}

theorem signs_tag_behind (taggable : Taggable body) (rest : List Char) :
    signs ((angled body).toList ++ rest) = .tag body.toList :: signs rest := by
  have shape : (angled body).toList ++ rest = '<' :: (body.toList ++ '>' :: rest) := by
    simp [angled]
  rw [shape, signs_angle taggable.bracketed taggable.bare, if_pos (taggable.opens _)]

theorem pieces_angled (taggable : Taggable body) :
    pieces (angled body) = [.tag (Body.ofText body)] := by
  have read := signs_tag_behind taggable []
  rw [List.append_nil] at read
  simp [pieces, read, signs, piecesFrom, literalOf]

theorem tagList_cons (body next : String) (bodies : List String) :
    tagList (body :: next :: bodies) = angled body ++ "|" ++ tagList (next :: bodies) :=
  String.intercalate_cons_cons

theorem pieces_tagList {next : String} {bodies : List String}
    (taggable : ∀ one ∈ body :: next :: bodies, Taggable one) :
    pieces (tagList (body :: next :: bodies)) =
      .tag (Body.ofText body) :: .literal "|" :: pieces (tagList (next :: bodies)) := by
  -- The bar is a literal of its own because a tag stands on either side of it.
  have starts : ∃ behind, signs (tagList (next :: bodies)).toList = .tag next.toList :: behind := by
    have taggableNext := taggable next (by simp)
    cases bodies with
    | nil =>
        refine ⟨[], ?_⟩
        simpa [tagList, signs] using signs_tag_behind taggableNext []
    | cons second bodies =>
        rw [tagList_cons, String.toList_append, String.toList_append, List.append_assoc,
          signs_tag_behind taggableNext]
        exact ⟨_, rfl⟩
  obtain ⟨behind, read⟩ := starts
  rw [tagList_cons, pieces, String.toList_append, String.toList_append, List.append_assoc,
    signs_tag_behind (taggable body List.mem_cons_self), show "|".toList = ['|'] from rfl,
    List.singleton_append, signs_cons (by decide) (by decide), pieces, read]
  simp [piecesFrom, literalOf]

/-! Filling such tags. -/

variable {σ : Type} (vocabulary : Vocabulary σ) (context : Context)

theorem resolveBody_static (limit levels : Nat) (body : String) :
    resolveBody vocabulary context limit (levels + 1) ⟨body, body, none, false⟩ = (do
      let chain ← Vocabulary.readChain body
      match ← resolveChain vocabulary
        (renderText vocabulary (resolveBody vocabulary context limit levels))
        ⟨chain, limit - levels, context⟩ with
      | .ok value => return escape value
      | .error failure =>
        vocabulary.reportError context s!"Tag <{unescape body}> is invalid: {failure.message}"
        return nullText) := by
  rw [resolveBody_succ]
  dsimp only [lookUp]
  rw [if_neg Bool.false_ne_true, pure_bind, bind_assoc]
  rfl

theorem evaluate_angled (taggable : Taggable body) {start : Evaluation σ} (faithful : start.Faithful)
    (uncancelled : start.isCancelled = false) :
    (evaluate vocabulary context (angled body)).run start = (do
      let _ ← vocabulary.readPieces (angled body)
      let value ← resolveBody vocabulary context depthLimit depthLimit (Body.ofText body)
      return unescape value).run start := by
  have tagged : mayHoldTags (angled body) = true := by
    rw [mayHoldTags_iff]
    simp [angled]
  obtain ⟨later, read, _, token, bound, _⟩ := readPieces_run vocabulary (angled body) faithful
  have uncancelledLater : later.isCancelled = false := by
    rw [← uncancelled, Evaluation.isCancelled, Evaluation.isCancelled, token, bound]
  rw [evaluate, renderText, if_pos tagged, bind_assoc, EvalM.run_bind_of_run_some read,
    EvalM.run_bind_of_run_some read, pieces_angled taggable,
    EvalM.run_bind_of_run_eq (renderPieces_tag _ _ uncancelledLater)]
  simp only [renderPieces, bind_assoc, pure_bind, String.append_empty]

end Tag

end TagScript
