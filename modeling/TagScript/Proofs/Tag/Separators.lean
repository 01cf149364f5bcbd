import TagScript.Proofs.Tag.Balance

/-! Cutting a body into components loses nothing, and it cuts at every dot that stands outside all
brackets and not between two digits, and nowhere else. A reader of bytes cuts at the same places. -/

namespace TagScript.Tag

def Component.written (component : Component) : String :=
  match component.context with
  | none => component.key
  | some context => component.key ++ "[" ++ context ++ "]"

def joined (components : List Component) : String :=
  ".".intercalate (components.map Component.written)

/-- How many brackets are open behind a text. One that closes nothing does not count. -/
def openBehind (opening closing : Char) (text : List Char) : Nat :=
  text.foldl (fun count c =>
    if c = opening then count + 1 else if c = closing then count - 1 else count) 0

/-- Whether a dot behind one text and in front of another has to separate two components. -/
def Separates (before after : List Char) : Prop :=
  openBehind '[' ']' before = 0 ∧ openBehind '<' '>' before = 0 ∧
    ¬ (before.getLast?.any Char.isDigit ∧ after.head?.any Char.isDigit)

/-- A text with every byte of its encoding as a character of its own. -/
def bytewise (text : List Char) : List Char :=
  text.flatMap fun c => (String.utf8EncodeChar c).map Char.ofUInt8

def Component.bytewise (component : Component) : Component :=
  ⟨String.ofList (Tag.bytewise component.key.toList),
    component.context.map fun context => String.ofList (Tag.bytewise context.toList)⟩

/-! Nothing is lost. -/

section

variable {afterDigit : Bool} {nesting : Nesting} {text before after : List Char}

theorem segmentsFrom_ne_nil : segmentsFrom afterDigit nesting text ≠ [] := by
  obtain ⟨first, others, read, _⟩ := segmentsFrom_parts afterDigit nesting text
  simp [read]

theorem intercalate_ontoFirst (c : Char) (parts : List (List Char)) :
    List.intercalate ['.'] (ontoFirst c parts) = c :: List.intercalate ['.'] parts := by
  match parts with
  | [] => simp [ontoFirst]
  | [part] => simp [ontoFirst]
  | part :: next :: rest => simp [ontoFirst, List.intercalate_cons_cons]

theorem intercalate_segmentsFrom :
    List.intercalate ['.'] (segmentsFrom afterDigit nesting text) = text := by
  induction text generalizing afterDigit nesting with
  | nil => simp [segmentsFrom]
  | cons c rest ih =>
      rw [segmentsFrom]
      split
      · rename_i cuts
        simp only [Bool.and_eq_true, decide_eq_true_eq] at cuts
        rw [List.intercalate_cons_of_ne_nil segmentsFrom_ne_nil, ih, cuts.1.1]
        rfl
      · rw [intercalate_ontoFirst, ih]

theorem written_ofSegment (segment : List Char) :
    (Component.ofSegment segment).written = String.ofList segment := by
  unfold Component.ofSegment
  split
  · rfl
  · rename_i key inner cut
    split
    · rename_i context closed
      obtain ⟨rfl, _⟩ := cutAtBracket_parts cut
      obtain rfl := closeBracket_split closed
      simp [Component.written, ← String.toList_inj]
    · rfl

theorem joined_ofSegment (parts : List (List Char)) :
    joined (parts.map Component.ofSegment) = String.ofList (List.intercalate ['.'] parts) := by
  have same : (parts.map Component.ofSegment).map (String.toList ∘ Component.written) = parts := by
    simp [Function.comp_def, written_ofSegment]
  rw [← String.toList_inj, joined, String.toList_intercalate, List.map_map, same]
  exact String.toList_ofList.symm

/-! Where a body is cut, judged from what was read of it. -/

def digitBehind (afterDigit : Bool) (text : List Char) : Bool :=
  text.foldl (fun _ c => c.isDigit) afterDigit

def SeparatesFrom (afterDigit : Bool) (nesting : Nesting) (before after : List Char) : Prop :=
  (before.foldl Nesting.step nesting).isOutside = true ∧
    ¬ (digitBehind afterDigit before = true ∧ startsWithDigit after = true)

theorem digitBehind_of_getLast? :
    digitBehind afterDigit text = (text.getLast?.map Char.isDigit).getD afterDigit := by
  induction text generalizing afterDigit with
  | nil => rfl
  | cons c rest ih =>
      rw [digitBehind, List.foldl_cons, ← digitBehind, ih, List.getLast?_cons]
      cases rest.getLast? <;> rfl

theorem square_foldl_step :
    (before.foldl Nesting.step nesting).square =
      before.foldl (fun count c =>
        if c = '[' then count + 1 else if c = ']' then count - 1 else count) nesting.square := by
  induction before generalizing nesting with
  | nil => rfl
  | cons c rest ih => rw [List.foldl_cons, ih, List.foldl_cons, Nesting.step_square]

theorem angle_foldl_step :
    (before.foldl Nesting.step nesting).angle =
      before.foldl (fun count c =>
        if c = '<' then count + 1 else if c = '>' then count - 1 else count) nesting.angle := by
  induction before generalizing nesting with
  | nil => rfl
  | cons c rest ih =>
      rw [List.foldl_cons, ih, List.foldl_cons, Nesting.step_angle]
      congr 1
      by_cases opening : c = '<'
      · simp [opening, tagDepth]
      · by_cases closing : c = '>'
        · simp [closing, tagDepth]
        · simp [opening, closing, tagDepth_of_ne]

theorem separates_iff :
    Separates before after ↔ SeparatesFrom false .outside before after := by
  have outside : (before.foldl Nesting.step .outside).isOutside = true ↔
      openBehind '[' ']' before = 0 ∧ openBehind '<' '>' before = 0 := by
    simp only [Nesting.isOutside, square_foldl_step, angle_foldl_step, Bool.and_eq_true,
      beq_iff_eq]
    rfl
  have digit : digitBehind false before = before.getLast?.any Char.isDigit := by
    rw [digitBehind_of_getLast?]
    cases before.getLast? <;> rfl
  rw [Separates, SeparatesFrom, outside, digit, and_assoc]
  rfl

theorem separatesFrom_nil : SeparatesFrom afterDigit nesting [] after ↔
    (decide ('.' = '.') && nesting.isOutside && !(afterDigit && startsWithDigit after)) = true := by
  simp [SeparatesFrom, digitBehind, Decidable.imp_iff_not_or]

theorem startsWithDigit_append_dot :
    startsWithDigit (text ++ '.' :: after) = startsWithDigit text := by
  cases text <;> rfl

theorem segmentsFrom_append (separates : SeparatesFrom afterDigit nesting before after) :
    segmentsFrom afterDigit nesting (before ++ '.' :: after) =
      segmentsFrom afterDigit nesting before ++
        segmentsFrom false (before.foldl Nesting.step nesting) after := by
  induction before generalizing afterDigit nesting with
  | nil =>
      rw [List.nil_append, segmentsFrom.eq_2, if_pos (separatesFrom_nil.1 separates)]
      rfl
  | cons c rest ih =>
      rw [List.cons_append, segmentsFrom, startsWithDigit_append_dot, segmentsFrom]
      split
      · rename_i cuts
        simp only [Bool.and_eq_true, decide_eq_true_eq] at cuts
        obtain ⟨⟨rfl, _⟩, _⟩ := cuts
        have onward : SeparatesFrom false nesting rest after := separates
        rw [ih onward]
        rfl
      · have onward : SeparatesFrom c.isDigit (nesting.step c) rest after := separates
        rw [ih onward]
        obtain ⟨first, others, read, _⟩ :=
          segmentsFrom_parts c.isDigit (nesting.step c) rest
        rw [read, List.foldl_cons]
        rfl

theorem separates_of_segmentsFrom {front back : List (List Char)}
    (cut : segmentsFrom afterDigit nesting (before ++ '.' :: after) = front ++ back)
    (inFront : front ≠ []) (same : List.intercalate ['.'] front = before) :
    SeparatesFrom afterDigit nesting before after := by
  induction before generalizing afterDigit nesting front with
  | nil =>
      rw [List.nil_append, segmentsFrom] at cut
      split at cut
      · rename_i cuts
        exact separatesFrom_nil.2 cuts
      · -- a first segment that holds the dot is not empty
        obtain ⟨part, parts, rfl⟩ := List.exists_cons_of_ne_nil inFront
        obtain ⟨first, others, read, _⟩ :=
          segmentsFrom_parts ('.' : Char).isDigit (nesting.step '.') after
        rw [read, ontoFirst, List.cons_append, List.cons.injEq] at cut
        obtain ⟨rfl, _⟩ := cut
        cases parts <;> simp [List.intercalate_cons_cons] at same
  | cons c rest ih =>
      obtain ⟨part, parts, rfl⟩ := List.exists_cons_of_ne_nil inFront
      rw [List.cons_append, segmentsFrom] at cut
      split at cut
      · rename_i cuts
        simp only [Bool.and_eq_true, decide_eq_true_eq] at cuts
        obtain ⟨⟨rfl, _⟩, _⟩ := cuts
        rw [List.cons_append, List.cons.injEq] at cut
        obtain ⟨rfl, cut⟩ := cut
        cases parts with
        | nil => simp at same
        | cons next parts =>
            rw [List.intercalate_cons_cons] at same
            exact ih cut (by simp) (by simpa using same)
      · obtain ⟨first, others, read, _⟩ :=
          segmentsFrom_parts c.isDigit (nesting.step c) (rest ++ '.' :: after)
        rw [read, ontoFirst, List.cons_append, List.cons.injEq] at cut
        obtain ⟨rfl, rfl⟩ := cut
        rw [← ontoFirst, intercalate_ontoFirst, List.cons.injEq] at same
        exact ih read (by simp) same.2

theorem segmentsFrom_cut_iff :
    (∃ front back, segmentsFrom afterDigit nesting (before ++ '.' :: after) = front ++ back ∧
        front ≠ [] ∧ back ≠ [] ∧ List.intercalate ['.'] front = before ∧
        List.intercalate ['.'] back = after) ↔ SeparatesFrom afterDigit nesting before after := by
  constructor
  · rintro ⟨front, back, cut, inFront, _, same, _⟩
    exact separates_of_segmentsFrom cut inFront same
  · intro separates
    exact ⟨_, _, segmentsFrom_append separates, segmentsFrom_ne_nil, segmentsFrom_ne_nil,
      intercalate_segmentsFrom, intercalate_segmentsFrom⟩

end

/-! A reader of bytes sees the characters up to 127 as they are, and of the others only bytes that
it does not look for. -/

def Wide (word : List Char) : Prop :=
  ∀ c ∈ word, 128 ≤ c.toNat

section

variable {word text rest : List Char} {c : Char}

theorem Wide.ne {d : Char} (wide : 128 ≤ c.toNat) (narrow : d.toNat < 128) : c ≠ d := by
  rintro rfl
  omega

theorem Wide.step (wide : 128 ≤ c.toNat) (nesting : Nesting) : nesting.step c = nesting := by
  unfold Nesting.step
  split <;> first | rfl | exact absurd wide (by decide)

theorem Wide.isDigit (wide : 128 ≤ c.toNat) : c.isDigit = false := by
  have large : 128 ≤ c.val.toNat := wide
  simp only [Char.isDigit, Bool.and_eq_false_iff, decide_eq_false_iff_not, ge_iff_le,
    UInt32.le_iff_toNat_le]
  right
  have nine : '9'.val.toNat = 57 := rfl
  omega

theorem bytewise_cons (c : Char) (rest : List Char) :
    bytewise (c :: rest) = bytewise [c] ++ bytewise rest := by
  simp [bytewise]

theorem bytewise_of_narrow (narrow : c.toNat < 128) : bytewise [c] = [c] := by
  have small : c.val.toNat ≤ 127 := Nat.le_of_lt_succ narrow
  have encoded : String.utf8EncodeChar c = [UInt8.ofNat c.val.toNat] := by
    simp only [String.utf8EncodeChar, if_pos small]
  have back : Char.ofUInt8 (UInt8.ofNat c.val.toNat) = c := by
    apply Char.ext
    apply UInt32.toNat.inj
    change (UInt8.ofNat c.val.toNat).toUInt32.toNat = c.val.toNat
    rw [UInt8.toNat_toUInt32, UInt8.toNat_ofNat']
    omega
  rw [bytewise, List.flatMap_singleton, encoded, List.map_singleton, back]

theorem wide_bytewise (wide : 128 ≤ c.toNat) : bytewise [c] ≠ [] ∧ Wide (bytewise [c]) := by
  have large : ¬ c.val.toNat ≤ 127 := Nat.not_le.2 wide
  have toNat_ofUInt8 (byte : UInt8) : (Char.ofUInt8 byte).toNat = byte.toNat :=
    UInt8.toNat_toUInt32 byte
  unfold Wide
  simp only [bytewise, List.flatMap_singleton, String.utf8EncodeChar, if_neg large]
  split
  · simp [toNat_ofUInt8]
    omega
  · split
    · simp [toNat_ofUInt8]
      omega
    · simp [toNat_ofUInt8]
      omega

theorem bytewise_eq_nil_iff : bytewise text = [] ↔ text = [] := by
  cases text with
  | nil => simp [bytewise]
  | cons c rest =>
      rw [bytewise_cons]
      by_cases narrow : c.toNat < 128
      · simp [bytewise_of_narrow narrow]
      · simp [(wide_bytewise (Nat.not_lt.1 narrow)).1]

theorem startsWithDigit_bytewise : startsWithDigit (bytewise text) = startsWithDigit text := by
  cases text with
  | nil => rfl
  | cons c rest =>
      rw [bytewise_cons]
      by_cases narrow : c.toNat < 128
      · simp [bytewise_of_narrow narrow, startsWithDigit]
      · have wide : 128 ≤ c.toNat := Nat.not_lt.1 narrow
        obtain ⟨filled, bytes⟩ := wide_bytewise wide
        obtain ⟨first, others, encoded⟩ := List.exists_cons_of_ne_nil filled
        have firstWide : 128 ≤ first.toNat := bytes first (by simp [encoded])
        simp [encoded, startsWithDigit, Wide.isDigit wide, Wide.isDigit firstWide]

/-! Each reader skips them. -/

theorem cutAtBracket_cons (angle : Nat) (c : Char) (rest : List Char) :
    cutAtBracket angle (c :: rest) =
      if c = '[' ∧ angle = 0 then some ([], rest)
      else (cutAtBracket (tagDepth angle c) rest).map fun cut => (c :: cut.1, cut.2) := by
  conv => lhs; unfold cutAtBracket
  simp only [Bool.and_eq_true, decide_eq_true_eq, beq_iff_eq]
  rfl

theorem closeBracket_cons (depth : Nat) (c : Char) (rest : List Char) :
    closeBracket depth (c :: rest) =
      if c = ']' ∧ depth = 0 then some ([], rest)
      else (closeBracket ((Nesting.mk depth 0).step c).square rest).map
        fun cut => (c :: cut.1, cut.2) := by
  conv => lhs; unfold closeBracket
  simp only [Bool.and_eq_true, decide_eq_true_eq, beq_iff_eq, Nesting.step_square]
  congr 3
  split <;> simp_all

theorem segmentsFrom_wide (wide : Wide word) (filled : word ≠ []) (afterDigit : Bool)
    (nesting : Nesting) :
    segmentsFrom afterDigit nesting (word ++ rest) =
      word.foldr ontoFirst (segmentsFrom false nesting rest) := by
  induction word generalizing afterDigit with
  | nil => exact absurd rfl filled
  | cons c word ih =>
      obtain ⟨first, others⟩ := List.forall_mem_cons.1 wide
      rw [List.cons_append, segmentsFrom, if_neg (by simp [Wide.ne first]), Wide.step first,
        Wide.isDigit first, List.foldr_cons]
      by_cases last : word = []
      · rw [last, List.nil_append, List.foldr_nil]
      · rw [ih others last]

theorem cutAtBracket_wide (wide : Wide word) (angle : Nat) :
    cutAtBracket angle (word ++ rest) =
      (cutAtBracket angle rest).map fun cut => (word ++ cut.1, cut.2) := by
  induction word with
  | nil => simp
  | cons c word ih =>
      obtain ⟨first, others⟩ := List.forall_mem_cons.1 wide
      rw [List.cons_append, cutAtBracket_cons, if_neg (by simp [Wide.ne first]),
        tagDepth_of_ne (Wide.ne first (by decide)) (Wide.ne first (by decide)), ih others,
        Option.map_map]
      rfl

theorem closeBracket_wide (wide : Wide word) (depth : Nat) :
    closeBracket depth (word ++ rest) =
      (closeBracket depth rest).map fun cut => (word ++ cut.1, cut.2) := by
  induction word with
  | nil => simp
  | cons c word ih =>
      obtain ⟨first, others⟩ := List.forall_mem_cons.1 wide
      rw [List.cons_append, closeBracket_cons, if_neg (by simp [Wide.ne first]), Wide.step first,
        ih others, Option.map_map]
      rfl

/-! So they cut a text and its bytes alike. -/

theorem foldr_ontoFirst (word part : List Char) (parts : List (List Char)) :
    word.foldr ontoFirst (part :: parts) = (word ++ part) :: parts := by
  induction word with
  | nil => rfl
  | cons c word ih => rw [List.foldr_cons, ih, ontoFirst, List.cons_append]

theorem segmentsFrom_bytewise (afterDigit : Bool) (nesting : Nesting) :
    segmentsFrom afterDigit nesting (bytewise text) =
      (segmentsFrom afterDigit nesting text).map bytewise := by
  induction text generalizing afterDigit nesting with
  | nil => rfl
  | cons c rest ih =>
      have onto : (ontoFirst c (segmentsFrom c.isDigit (nesting.step c) rest)).map bytewise =
          (bytewise [c]).foldr ontoFirst
            (segmentsFrom c.isDigit (nesting.step c) (bytewise rest)) := by
        obtain ⟨first, others, read, _⟩ := segmentsFrom_parts c.isDigit (nesting.step c) rest
        rw [ih, read, List.map_cons, foldr_ontoFirst, ← bytewise_cons]
        rfl
      rw [bytewise_cons]
      by_cases narrow : c.toNat < 128
      · rw [bytewise_of_narrow narrow] at onto ⊢
        rw [List.singleton_append, segmentsFrom, segmentsFrom, startsWithDigit_bytewise]
        split
        · rw [ih, List.map_cons]
          rfl
        · exact onto.symm
      · have wide : 128 ≤ c.toNat := Nat.not_lt.1 narrow
        obtain ⟨filled, bytes⟩ := wide_bytewise wide
        rw [Wide.step wide, Wide.isDigit wide] at onto
        rw [segmentsFrom_wide bytes filled, segmentsFrom, if_neg (by simp [Wide.ne wide]),
          Wide.step wide, Wide.isDigit wide, onto]

def bytewiseCut (cut : List Char × List Char) : List Char × List Char :=
  (bytewise cut.1, bytewise cut.2)

theorem map_bytewiseCut (c : Char) (found : Option (List Char × List Char)) :
    (found.map bytewiseCut).map (fun cut => (bytewise [c] ++ cut.1, cut.2)) =
      (found.map fun cut => (c :: cut.1, cut.2)).map bytewiseCut := by
  rw [Option.map_map, Option.map_map]
  congr 1
  funext cut
  simp [bytewiseCut, bytewise_cons c cut.1]

theorem cutAtBracket_bytewise (angle : Nat) :
    cutAtBracket angle (bytewise text) = (cutAtBracket angle text).map bytewiseCut := by
  induction text generalizing angle with
  | nil => rfl
  | cons c rest ih =>
      rw [bytewise_cons, cutAtBracket_cons]
      by_cases narrow : c.toNat < 128
      · rw [bytewise_of_narrow narrow, List.singleton_append, cutAtBracket_cons]
        split
        · rfl
        · rw [ih, ← map_bytewiseCut, bytewise_of_narrow narrow]
          rfl
      · have wide : 128 ≤ c.toNat := Nat.not_lt.1 narrow
        rw [cutAtBracket_wide (wide_bytewise wide).2, if_neg (by simp [Wide.ne wide]),
          tagDepth_of_ne (Wide.ne wide (by decide)) (Wide.ne wide (by decide)), ih,
          map_bytewiseCut]

theorem closeBracket_bytewise (depth : Nat) :
    closeBracket depth (bytewise text) = (closeBracket depth text).map bytewiseCut := by
  induction text generalizing depth with
  | nil => rfl
  | cons c rest ih =>
      rw [bytewise_cons, closeBracket_cons]
      by_cases narrow : c.toNat < 128
      · rw [bytewise_of_narrow narrow, List.singleton_append, closeBracket_cons]
        split
        · rfl
        · rw [ih, ← map_bytewiseCut, bytewise_of_narrow narrow]
          rfl
      · have wide : 128 ≤ c.toNat := Nat.not_lt.1 narrow
        rw [closeBracket_wide (wide_bytewise wide).2, if_neg (by simp [Wide.ne wide]),
          Wide.step wide, ih, map_bytewiseCut]

theorem ofSegment_bytewise (segment : List Char) :
    Component.ofSegment (bytewise segment) = (Component.ofSegment segment).bytewise := by
  unfold Component.ofSegment
  rw [cutAtBracket_bytewise]
  cases cutAtBracket 0 segment with
  | none => simp [Component.bytewise]
  | some cut =>
      obtain ⟨key, inner⟩ := cut
      simp only [Option.map_some, bytewiseCut, closeBracket_bytewise]
      cases closeBracket 0 inner with
      | none => simp [Component.bytewise]
      | some closed =>
          obtain ⟨context, after⟩ := closed
          cases after with
          | nil => simp [Component.bytewise, bytewiseCut, bytewise]
          | cons c after =>
              obtain ⟨first, others, encoded⟩ :=
                List.exists_cons_of_ne_nil (mt bytewise_eq_nil_iff.1 (List.cons_ne_nil c after))
              simp [Component.bytewise, bytewiseCut, encoded]

end

theorem parse_cut_iff {body : String} {before after : List Char}
    (split : body.toList = before ++ '.' :: after) :
    (∃ front back, (Chain.parse body).components = front ++ back ∧ front ≠ [] ∧ back ≠ [] ∧
        joined front = String.ofList before ∧ joined back = String.ofList after) ↔
      Separates before after := by
  rw [separates_iff, ← segmentsFrom_cut_iff, Chain.parse, segments, split]
  constructor
  · rintro ⟨front, back, cut, inFront, behind, same, sameBehind⟩
    obtain ⟨front, back, read, rfl, rfl⟩ := List.map_eq_append_iff.1 cut
    rw [joined_ofSegment, String.ofList_inj] at same sameBehind
    exact ⟨front, back, read, mt (by rintro rfl; rfl) inFront, mt (by rintro rfl; rfl) behind,
      same, sameBehind⟩
  · rintro ⟨front, back, read, inFront, behind, rfl, rfl⟩
    refine ⟨_, _, by rw [read, List.map_append], by simpa, by simpa, ?_, ?_⟩
    · exact joined_ofSegment front
    · exact joined_ofSegment back

/-- A body has components, they are the body with its separating dots between them, and they are
separated at a dot of the body exactly where it separates. Read byte by byte it has the same ones, so
none of them ends inside of a character. -/
theorem parse_separates (body : String) :
    (Chain.parse body).components ≠ [] ∧ joined (Chain.parse body).components = body ∧
      (∀ before after, body.toList = before ++ '.' :: after →
        ((∃ front back, (Chain.parse body).components = front ++ back ∧ front ≠ [] ∧ back ≠ [] ∧
            joined front = String.ofList before ∧ joined back = String.ofList after) ↔
          Separates before after)) ∧
      (Chain.parse (String.ofList (bytewise body.toList))).components =
        (Chain.parse body).components.map Component.bytewise := by
  refine ⟨?_, ?_, fun before after split => parse_cut_iff split, ?_⟩
  · simpa [Chain.parse, segments] using segmentsFrom_ne_nil
  · rw [Chain.parse, joined_ofSegment, segments, intercalate_segmentsFrom, String.ofList_toList]
  · rw [Chain.parse, Chain.parse, segments, segments, String.toList_ofList, segmentsFrom_bytewise,
      List.map_map, List.map_map]
    exact List.map_congr_left fun segment _ => ofSegment_bytewise segment

end TagScript.Tag
