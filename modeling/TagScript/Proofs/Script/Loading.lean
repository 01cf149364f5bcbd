import TagScript.Proofs.Script.Outside
import TagScript.Proofs.Text.Words
import TagScript.Script.Source

/-! Loading a script. The words of its lines decide it, and where they were cut into lines counts
only outside braces. -/

namespace TagScript

open SourceReader (braceDepth)

/-- How many braces are open behind the words. A closing brace that closes nothing counts for
nothing. -/
def openBraces (words : List String) : Nat := words.foldl braceDepth 0

theorem openBraces_append (front back : List String) :
    openBraces (front ++ back) = back.foldl braceDepth (openBraces front) :=
  List.foldl_append

theorem openBraces_of_unbraced {words : List String} (unbraced : Unbraced words) :
    openBraces words = 0 :=
  foldl_braceDepth_of_unbraced unbraced 0

namespace Script

def isKept (line : String) : Bool :=
  !((Text.trim line).isEmpty || (Text.trim line).toList.head? == some '#')

/-- The words that a line adds to its script, or nothing if it cannot be read. -/
def lineWords? (line : String) : Option (List String) :=
  if isKept line then Text.words? (Text.trim line) else some []

def keptWords (lines : List String) : List (List String) :=
  (lines.filter isKept).filterMap lineWords?

def StaysOpen (lines : List (List String)) : Prop :=
  ∀ before, before <+: lines → before ≠ [] → 0 < openBraces before.flatten

/-- Each group goes on to the first line behind which no brace is open; the last one need not come
to such a line. -/
inductive Grouped : List (List (List String)) → Prop where
  | none : Grouped []
  | closed {front : List (List String)} {last : List String} {groups : List (List (List String))}
      (opens : StaysOpen front) (closes : openBraces (front ++ [last]).flatten = 0)
      (others : Grouped groups) : Grouped ((front ++ [last]) :: groups)
  | unclosed {lines : List (List String)} (some : lines ≠ []) (opens : StaysOpen lines) :
      Grouped [lines]

structure Cut (line left right : String) (front back : List String) : Prop where
  text : Text.trim line = left ++ right
  left : Text.words? left = some front
  right : Text.words? right = some back
  whole : lineWords? line = some (front ++ back)

/-- Two lines for one, with the same words. A cut through the text makes such lines, however they
are indented, unless a blank that is part of a word comes to stand at the end of its line. -/
inductive BrokenInto (line first second : String) (front back : List String) : Prop where
  | byWords (whole : lineWords? line = some (front ++ back)) (first : lineWords? first = some front)
      (second : lineWords? second = some back)
  | byText {left right : String} (cut : Cut line left right front back) (feed : '\n' ∉ line.toList)
      (bareFront : Text.LastBare front) (bareBack : Text.FirstBare back)
      (indentFirst : Text.trim first = Text.trim left)
      (indentSecond : Text.trim second = Text.trim right)

end Script

namespace SourceReader

def take (reader : SourceReader) (words : List String) : Except EntryError SourceReader :=
  if words.foldl braceDepth reader.depth = 0 then
    (Entry.ofTokens (reader.pending ++ words)).map fun entry => ⟨entry :: reader.entries, [], 0⟩
  else .ok ⟨reader.entries, reader.pending ++ words, words.foldl braceDepth reader.depth⟩

def load (reader : SourceReader) (lines : List (List String)) : Except EntryError (List Entry) :=
  lines.foldlM take reader >>= finish

variable {reader next : SourceReader} {line : String} {words front back : List String}

theorem step_of_not_isKept (skipped : Script.isKept line = false) :
    reader.step line = .ok reader := by
  rw [Script.isKept, Bool.not_eq_false'] at skipped
  exact if_pos skipped

theorem step_of_isKept (kept : Script.isKept line) (read : Script.lineWords? line = some words) :
    reader.step line = reader.take words := by
  rw [Script.lineWords?, if_pos kept] at read
  rw [Script.isKept, Bool.not_eq_true', ← Bool.not_eq_true] at kept
  rw [step, if_neg kept, read]
  rfl

theorem step_eq_take (read : Script.lineWords? line = some words)
    (opened : words = [] → 0 < reader.depth) : reader.step line = reader.take words := by
  cases kept : Script.isKept line with
  | true => exact step_of_isKept kept read
  | false =>
      rw [step_of_not_isKept kept]
      rw [Script.lineWords?, kept] at read
      obtain rfl := Option.some.inj read
      rw [take, List.foldl_nil, if_neg (opened rfl).ne', List.append_nil]

theorem depth_take (taken : reader.take words = .ok next) :
    next.depth = words.foldl braceDepth reader.depth := by
  unfold take at taken
  split at taken
  · rename_i closed
    cases built : Entry.ofTokens (reader.pending ++ words) with
    | error error =>
        rw [built] at taken
        cases taken
    | ok entry =>
        rw [built] at taken
        obtain rfl := Except.ok.inj taken
        exact closed.symm
  · obtain rfl := Except.ok.inj taken
    rfl

theorem take_of_open (opened : 0 < words.foldl braceDepth reader.depth) : reader.take words =
    .ok ⟨reader.entries, reader.pending ++ words, words.foldl braceDepth reader.depth⟩ :=
  if_neg opened.ne'

theorem take_append (opened : 0 < front.foldl braceDepth reader.depth) :
    reader.take (front ++ back) = reader.take front >>= fun next => next.take back := by
  rw [take_of_open opened, take, List.foldl_append, ← List.append_assoc]
  rfl

theorem step_step {first second : String} (readFirst : Script.lineWords? first = some front)
    (readSecond : Script.lineWords? second = some back)
    (read : Script.lineWords? line = some (front ++ back))
    (opened : 0 < front.foldl braceDepth reader.depth) :
    (reader.step first >>= fun next => next.step second) = reader.step line := by
  have stepFirst : reader.step first = reader.take front := by
    refine step_eq_take readFirst fun none => ?_
    rwa [none] at opened
  have stepLine : reader.step line = reader.take (front ++ back) := by
    refine step_eq_take read fun none => ?_
    rwa [(List.append_eq_nil_iff.1 none).1] at opened
  rw [stepFirst, stepLine, take_append opened, take_of_open opened]
  simp only [bind, Except.bind]
  exact step_eq_take readSecond fun _ => opened

theorem load_cons (reader : SourceReader) (first : List String) (lines : List (List String)) :
    reader.load (first :: lines) = reader.take first >>= fun next => next.load lines := by
  rw [load, List.foldlM_cons, bind_assoc]
  rfl

end SourceReader

namespace Script

variable {name line left right : String} {lines : List String} {words front back : List String}

theorem staysOpen_concat {lines : List (List String)} {last : List String} (opens : StaysOpen lines)
    (opened : 0 < openBraces (lines ++ [last]).flatten) : StaysOpen (lines ++ [last]) := by
  intro before start some
  obtain rfl | start := List.prefix_concat_iff.1 start
  · exact opened
  · exact opens before start some

theorem staysOpen_nil : StaysOpen [] := fun _ start some => absurd (List.prefix_nil.1 start) some

theorem StaysOpen.isEmpty_flatten {lines : List (List String)} (opens : StaysOpen lines)
    (some : lines ≠ []) : lines.flatten.isEmpty = false := by
  have opened := opens lines List.prefix_rfl some
  rw [List.isEmpty_eq_false_iff]
  intro empty
  rw [empty] at opened
  exact absurd opened (Nat.lt_irrefl 0)

/-- Reading on behind the open lines of a group. The groups do not depend on the entries read
before, nor on whether their words make entries. -/
theorem load_groups (lines : List (List String)) {opened : List (List String)}
    (opens : StaysOpen opened) :
    ∃ groups, Grouped groups ∧ groups.flatten = opened ++ lines ∧ ∀ entries,
      SourceReader.load ⟨entries, opened.flatten, openBraces opened.flatten⟩ lines =
        (groups.mapM fun group => Entry.ofTokens group.flatten).map (entries.reverse ++ ·) := by
  induction lines generalizing opened with
  | nil =>
      by_cases some : opened = []
      · subst some
        refine ⟨[], .none, rfl, fun entries => ?_⟩
        exact congrArg Except.ok (List.append_nil _).symm
      · refine ⟨[opened], .unclosed some opens, by simp, fun entries => ?_⟩
        have pending := opens.isEmpty_flatten some
        simp only [SourceReader.load, List.foldlM_nil, pure_bind, SourceReader.finish, pending]
        rw [List.mapM_cons, List.mapM_nil]
        cases Entry.ofTokens opened.flatten with
        | error error => rfl
        | ok entry => exact congrArg Except.ok List.reverse_cons
  | cons first rest ih =>
      have grown : opened.flatten ++ first = (opened ++ [first]).flatten := by simp
      have depth : first.foldl braceDepth (openBraces opened.flatten) =
          openBraces (opened ++ [first]).flatten := by
        rw [← openBraces_append, grown]
      simp only [SourceReader.load_cons, SourceReader.take, grown, depth]
      split
      · rename_i closes
        obtain ⟨groups, others, flat, loaded⟩ := ih staysOpen_nil
        refine ⟨(opened ++ [first]) :: groups, .closed opens closes others, by simp [flat],
          fun entries => ?_⟩
        rw [List.mapM_cons]
        cases Entry.ofTokens (opened ++ [first]).flatten with
        | error error => rfl
        | ok entry =>
            refine (loaded (entry :: entries)).trans ?_
            simp only [Except.map, bind, Except.bind]
            cases groups.mapM fun group => Entry.ofTokens group.flatten with
            | error error => rfl
            | ok rest =>
                refine congrArg Except.ok ?_
                rw [List.reverse_cons, List.append_assoc, List.singleton_append]
      · rename_i goesOn
        obtain ⟨groups, grouped, flat, loaded⟩ :=
          ih (staysOpen_concat opens (Nat.pos_of_ne_zero goesOn))
        exact ⟨groups, grouped, by simp [flat], loaded⟩

theorem StaysOpen.eq_nil_of_unbraced {lines : List (List String)} (opens : StaysOpen lines)
    (unbraced : ∀ words ∈ lines, Unbraced words) : lines = [] := by
  cases lines with
  | nil => rfl
  | cons first rest =>
      have opened := opens [first] ⟨rest, rfl⟩ (List.cons_ne_nil first [])
      rw [List.flatten_singleton, openBraces_of_unbraced (unbraced first List.mem_cons_self)]
        at opened
      exact absurd opened (Nat.lt_irrefl 0)

theorem Grouped.eq_map_of_unbraced {groups : List (List (List String))} (grouped : Grouped groups)
    (unbraced : ∀ words ∈ groups.flatten, Unbraced words) :
    groups = groups.flatten.map fun words => [words] := by
  induction grouped with
  | none => rfl
  | closed opens closes others ih =>
      simp only [List.flatten_cons, List.forall_mem_append] at unbraced
      obtain ⟨⟨unbracedFront, -⟩, unbracedOthers⟩ := unbraced
      obtain rfl := opens.eq_nil_of_unbraced unbracedFront
      exact congrArg _ (ih unbracedOthers)
  | unclosed some opens =>
      rw [List.flatten_singleton] at unbraced
      exact absurd (opens.eq_nil_of_unbraced unbraced) some

theorem keptWords_cons (line : String) (rest : List String) :
    keptWords (line :: rest) = keptWords [line] ++ keptWords rest := by
  rw [keptWords, keptWords, keptWords, ← List.filterMap_append, ← List.filter_append,
    List.singleton_append]

theorem keptWords_of_isKept (kept : isKept line) (read : lineWords? line = some words) :
    keptWords [line] = [words] := by
  rw [keptWords, List.filter_cons_of_pos kept, List.filter_nil, List.filterMap_cons_some read,
    List.filterMap_nil]

theorem keptWords_of_not_isKept (skipped : isKept line = false) : keptWords [line] = [] := by
  rw [keptWords, List.filter_cons_of_neg (Bool.eq_false_iff.1 skipped), List.filter_nil,
    List.filterMap_nil]

theorem foldlM_step (readable : ∀ line ∈ lines, (lineWords? line).isSome) (reader : SourceReader) :
    lines.foldlM SourceReader.step reader = (keptWords lines).foldlM SourceReader.take reader := by
  induction lines generalizing reader with
  | nil => rfl
  | cons line rest ih =>
      obtain ⟨readableHere, readableRest⟩ := List.forall_mem_cons.1 readable
      obtain ⟨words, read⟩ := Option.isSome_iff_exists.1 readableHere
      rw [List.foldlM_cons, keptWords_cons, List.foldlM_append]
      cases kept : isKept line with
      | true =>
          rw [SourceReader.step_of_isKept kept read, keptWords_of_isKept kept read]
          simp only [List.foldlM_cons, List.foldlM_nil, bind_pure, ih readableRest]
      | false =>
          rw [SourceReader.step_of_not_isKept kept, keptWords_of_not_isKept kept]
          exact ih readableRest reader

theorem depth_foldlM_step (readable : ∀ line ∈ lines, (lineWords? line).isSome)
    {reader next : SourceReader} (read : lines.foldlM SourceReader.step reader = .ok next) :
    next.depth = (keptWords lines).flatten.foldl braceDepth reader.depth := by
  rw [foldlM_step readable] at read
  generalize keptWords lines = lines at read
  induction lines generalizing reader with
  | nil =>
      obtain rfl := Except.ok.inj read
      rfl
  | cons words rest ih =>
      rw [List.foldlM_cons] at read
      cases taken : reader.take words with
      | error error =>
          rw [taken] at read
          cases read
      | ok middle =>
          rw [taken] at read
          rw [ih read, SourceReader.depth_take taken, List.flatten_cons, List.foldl_append]

theorem ofLines_eq (name : String) (readable : ∀ line ∈ lines, (lineWords? line).isSome) :
    ofLines name lines = (SourceReader.start.load (keptWords lines)).map (Script.mk name) := by
  rw [ofLines, foldlM_step readable, SourceReader.load]
  cases (keptWords lines).foldlM SourceReader.take .start with
  | error error => rfl
  | ok reader =>
      change (reader.finish >>= fun entries => pure (Script.mk name entries)) = _
      rw [bind_pure_comp]
      rfl

theorem ofLine_eq (kept : isKept line) (read : lineWords? line = some words) :
    Entry.ofLine line = Entry.ofTokens words := by
  rw [lineWords?, if_pos kept] at read
  rw [Entry.ofLine, read]

theorem mapM_ofTokens_keptWords (readable : ∀ line ∈ lines, (lineWords? line).isSome) :
    (keptWords lines).mapM Entry.ofTokens = (lines.filter isKept).mapM Entry.ofLine := by
  induction lines with
  | nil => rfl
  | cons line rest ih =>
      obtain ⟨readableHere, readableRest⟩ := List.forall_mem_cons.1 readable
      obtain ⟨words, read⟩ := Option.isSome_iff_exists.1 readableHere
      rw [keptWords_cons]
      cases kept : isKept line with
      | true =>
          rw [keptWords_of_isKept kept read, List.singleton_append, List.mapM_cons,
            ih readableRest, List.filter_cons_of_pos kept, List.mapM_cons, ofLine_eq kept read]
      | false =>
          rw [keptWords_of_not_isKept kept, List.nil_append, ih readableRest,
            List.filter_cons_of_neg (Bool.eq_false_iff.1 kept)]

theorem ofLines_of_groups (name : String)
    (readable : ∀ line ∈ lines, (lineWords? line).isSome) :
    ∃ groups, Grouped groups ∧ groups.flatten = keptWords lines ∧ ofLines name lines =
      (groups.mapM fun group => Entry.ofTokens group.flatten).map (Script.mk name) := by
  obtain ⟨groups, grouped, flat, loaded⟩ := load_groups (keptWords lines) staysOpen_nil
  refine ⟨groups, grouped, flat, ?_⟩
  rw [ofLines_eq name readable]
  refine congrArg (Except.map (Script.mk name)) ((loaded []).trans ?_)
  cases groups.mapM fun group => Entry.ofTokens group.flatten <;> rfl

theorem ofLines_of_unbraced (name : String)
    (readable : ∀ line ∈ lines, (lineWords? line).isSome)
    (unbraced : ∀ words ∈ keptWords lines, Unbraced words) :
    ofLines name lines = ((lines.filter isKept).mapM Entry.ofLine).map (Script.mk name) := by
  obtain ⟨groups, grouped, flat, loaded⟩ := ofLines_of_groups name readable
  have single := grouped.eq_map_of_unbraced (flat ▸ unbraced)
  have each : ((fun group => Entry.ofTokens group.flatten) ∘ fun words => [words]) =
      Entry.ofTokens := funext fun words => congrArg Entry.ofTokens List.flatten_singleton
  rw [loaded, single, flat, List.mapM_map, each, mapM_ofTokens_keptWords readable]

theorem ofLines_of_parts (name : String) {before after : List String} {first second : String}
    (readable : ∀ line ∈ before, (lineWords? line).isSome)
    (readFirst : lineWords? first = some front) (readSecond : lineWords? second = some back)
    (read : lineWords? line = some (front ++ back))
    (opened : 0 < openBraces ((keptWords before).flatten ++ front)) :
    ofLines name (before ++ first :: second :: after) = ofLines name (before ++ line :: after) := by
  have steps : (before ++ first :: second :: after).foldlM SourceReader.step .start =
      (before ++ line :: after).foldlM SourceReader.step .start := by
    rw [List.foldlM_append, List.foldlM_append]
    cases reached : before.foldlM SourceReader.step .start with
    | error error => simp only [bind, Except.bind]
    | ok reader =>
        have depth : front.foldl braceDepth reader.depth =
            openBraces ((keptWords before).flatten ++ front) := by
          rw [depth_foldlM_step readable reached, openBraces_append]
          rfl
        rw [← depth] at opened
        have both := SourceReader.step_step readFirst readSecond read opened
        simp only [bind, Except.bind]
        rw [List.foldlM_cons, List.foldlM_cons, ← both, bind_assoc]
        simp only [List.foldlM_cons]
  rw [ofLines, ofLines, steps]

theorem lineWords?_congr {other : String} (same : Text.trim line = Text.trim other) :
    lineWords? line = lineWords? other := by
  rw [lineWords?, lineWords?, isKept, isKept, same]

theorem lineWords?_of_not_mem (feed : '\n' ∉ line.toList) :
    lineWords? line = Text.words? (Text.trim line) := by
  rw [lineWords?]
  split
  · rfl
  · rename_i skipped
    have feedTrim : '\n' ∉ (Text.trim line).toList := by
      rw [Text.trim, String.toList_ofList]
      exact mt Text.mem_of_mem_trimChars feed
    rw [isKept, Bool.not_eq_true', Bool.not_eq_false, Bool.or_eq_true] at skipped
    obtain empty | hash := skipped
    · rw [String.isEmpty_iff.1 empty]
      rfl
    · rw [beq_iff_eq, List.head?_eq_some_iff] at hash
      obtain ⟨rest, chars⟩ := hash
      rw [chars] at feedTrim
      rw [Text.words?, chars]
      exact (Text.wordsFrom_comment_of_line (mt (List.mem_cons_of_mem _) feedTrim)).symm

theorem Cut.reads (cut : Cut line left right front back) (feed : '\n' ∉ line.toList)
    (bareFront : Text.LastBare front) (bareBack : Text.FirstBare back) :
    lineWords? left = some front ∧ lineWords? right = some back := by
  have text : Text.trimChars line.toList = left.toList ++ right.toList := by
    rw [← String.toList_append, ← cut.text, Text.trim, String.toList_ofList]
  have feed := mt Text.mem_of_mem_trimChars feed
  have start := Text.startsBare_trimChars line.toList
  have stop := Text.endsBare_trimChars line.toList
  rw [text] at feed start stop
  rw [List.mem_append, not_or] at feed
  constructor
  · rw [lineWords?_of_not_mem feed.1]
    exact Text.words?_trim_of_lastBare start.of_append feed.1 cut.left bareFront
  · rw [lineWords?_of_not_mem feed.2]
    exact Text.words?_trim_of_firstBare stop.of_append cut.right bareBack

theorem BrokenInto.reads {first second : String}
    (broken : BrokenInto line first second front back) :
    lineWords? line = some (front ++ back) ∧ lineWords? first = some front ∧
      lineWords? second = some back := by
  cases broken with
  | byWords whole first second => exact ⟨whole, first, second⟩
  | byText cut feed bareFront bareBack indentFirst indentSecond =>
      rw [lineWords?_congr indentFirst, lineWords?_congr indentSecond]
      exact ⟨cut.whole, cut.reads feed bareFront bareBack⟩

/-- Only the words of the lines that are kept decide what script they make, and inside braces not
even how the words are spread over lines. -/
theorem ofLines_by_words (name : String) (lines : List String)
    (readable : ∀ line ∈ lines, (lineWords? line).isSome) :
    (∃ groups, Grouped groups ∧ groups.flatten = keptWords lines ∧ ofLines name lines =
      (groups.mapM fun group => Entry.ofTokens group.flatten).map (Script.mk name)) ∧
    (∀ others, (∀ line ∈ others, (lineWords? line).isSome) → keptWords others = keptWords lines →
      ofLines name others = ofLines name lines) ∧
    ((∀ words ∈ keptWords lines, Unbraced words) →
      ofLines name lines = ((lines.filter isKept).mapM Entry.ofLine).map (Script.mk name)) ∧
    ∀ before line after first second front back, lines = before ++ line :: after →
      BrokenInto line first second front back →
      0 < openBraces ((keptWords before).flatten ++ front) →
      ofLines name (before ++ first :: second :: after) = ofLines name lines := by
  refine ⟨ofLines_of_groups name readable, fun others readableOthers same => ?_,
    ofLines_of_unbraced name readable, ?_⟩
  · rw [ofLines_eq name readable, ofLines_eq name readableOthers, same]
  · rintro before line after first second front back rfl broken opened
    obtain ⟨whole, readFirst, readSecond⟩ := broken.reads
    exact ofLines_of_parts name (List.forall_mem_append.1 readable).1 readFirst readSecond whole
      opened

theorem ofLines_by_words_repeat :
    (∀ line ∈ ["narrate hi", "repeat 2 \x7b - narrate a \x7d"], (lineWords? line).isSome) ∧
    BrokenInto "repeat 2 \x7b - narrate a \x7d" "repeat 2 \x7b" "  - narrate a \x7d"
      ["repeat", "2", openBrace] ["-", "narrate", "a", closeBrace] ∧
    ofLines "s" ["narrate hi", "repeat 2 \x7b", "  - narrate a \x7d"] =
      ofLines "s" ["narrate hi", "repeat 2 \x7b - narrate a \x7d"] := by
  have readable : ∀ line ∈ ["narrate hi", "repeat 2 \x7b - narrate a \x7d"],
      (lineWords? line).isSome := by decide
  have cut : Cut "repeat 2 \x7b - narrate a \x7d" "repeat 2 \x7b " "- narrate a \x7d"
      ["repeat", "2", openBrace] ["-", "narrate", "a", closeBrace] :=
    ⟨by decide, by decide, by decide, by decide⟩
  have broken : BrokenInto "repeat 2 \x7b - narrate a \x7d" "repeat 2 \x7b" "  - narrate a \x7d"
      ["repeat", "2", openBrace] ["-", "narrate", "a", closeBrace] := by
    refine .byText cut (by decide) ?_ ?_ (by decide) (by decide)
    · rintro _ ⟨⟩ _ ⟨⟩
      rfl
    · rintro _ ⟨⟩ _ ⟨⟩
      rfl
  exact ⟨readable, broken, (ofLines_by_words "s" _ readable).2.2.2 ["narrate hi"]
    "repeat 2 \x7b - narrate a \x7d" [] _ _ _ _ rfl broken (by decide)⟩

/-- A blank that parts no words belongs to the word in front of it, but not at the end of a line. -/
theorem ofLines_of_blank_at_break :
    Cut "repeat 1 \x7b - narrate a\u00a0 b \x7d" "repeat 1 \x7b - narrate a\u00a0 " "b \x7d"
      ["repeat", "1", openBrace, "-", "narrate", "a\u00a0"] ["b", closeBrace] ∧
    0 < openBraces ["repeat", "1", openBrace, "-", "narrate", "a\u00a0"] ∧
    (∀ line ∈ ["repeat 1 \x7b - narrate a\u00a0 ", "b \x7d"], (lineWords? line).isSome) ∧
    ofLines "s" ["repeat 1 \x7b - narrate a\u00a0 ", "b \x7d"] ≠
      ofLines "s" ["repeat 1 \x7b - narrate a\u00a0 b \x7d"] :=
  ⟨⟨by decide, by decide, by decide, by decide⟩, by decide, by decide, by decide +kernel⟩

end Script

end TagScript
