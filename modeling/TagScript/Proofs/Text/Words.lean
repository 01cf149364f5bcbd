import Mathlib.Data.List.DropRight
import TagScript.Text.Blank
import TagScript.Text.Words

/-! Words of trimmed texts. More characters are blank than part words, so trimming a text can cost
a word its end; it cannot where no word starts or ends with a blank on that side. -/

namespace TagScript.Text

variable {chars word blanks : List Char} {words : List String} {mode : WordMode}

/-! ### Blanks at either end -/

def StartsBare (chars : List Char) : Prop := ∀ c ∈ chars.head?, isBlank c = false

def EndsBare (chars : List Char) : Prop := ∀ c ∈ chars.getLast?, isBlank c = false

theorem exists_blanks_trimChars (chars : List Char) :
    ∃ lead trail, (∀ c ∈ lead, isBlank c) ∧ (∀ c ∈ trail, isBlank c) ∧
      chars = lead ++ (trimChars chars ++ trail) := by
  refine ⟨chars.takeWhile isBlank, (chars.dropWhile isBlank).rtakeWhile isBlank,
    fun c member => List.mem_takeWhile_imp member,
    fun c member => List.mem_rtakeWhile_imp member, ?_⟩
  have cut : chars.dropWhile isBlank =
      trimChars chars ++ (chars.dropWhile isBlank).rtakeWhile isBlank :=
    List.rdropWhile_append_rtakeWhile.symm
  rw [← cut, List.takeWhile_append_dropWhile]

theorem mem_of_mem_trimChars {c : Char} (member : c ∈ trimChars chars) : c ∈ chars := by
  obtain ⟨lead, trail, -, -, split⟩ := exists_blanks_trimChars chars
  rw [split]
  exact List.mem_append_right lead (List.mem_append_left trail member)

theorem StartsBare.of_append {rest : List Char} (bare : StartsBare (chars ++ rest)) :
    StartsBare chars :=
  fun c first => bare c (List.mem_head?_append_of_mem_head? first)

theorem EndsBare.of_append {rest : List Char} (bare : EndsBare (rest ++ chars)) :
    EndsBare chars :=
  fun c last => bare c (List.mem_getLast?_append_of_mem_getLast? last)

theorem exists_trail_of_startsBare (bare : StartsBare chars) :
    ∃ trail, (∀ c ∈ trail, isBlank c) ∧ chars = trimChars chars ++ trail := by
  obtain ⟨lead, trail, blankLead, blankTrail, split⟩ := exists_blanks_trimChars chars
  cases lead with
  | nil => exact ⟨trail, blankTrail, split⟩
  | cons c lead =>
      have first := bare c (by rw [split]; rfl)
      rw [blankLead c List.mem_cons_self] at first
      cases first

theorem exists_lead_of_endsBare (bare : EndsBare chars) :
    ∃ lead, (∀ c ∈ lead, isBlank c) ∧ chars = lead ++ trimChars chars := by
  obtain ⟨lead, trail, blankLead, blankTrail, split⟩ := exists_blanks_trimChars chars
  cases trail using List.reverseRecOn with
  | nil => exact ⟨lead, blankLead, by rwa [List.append_nil] at split⟩
  | append_singleton trail c =>
      have last := bare c (by rw [split]; simp)
      rw [blankTrail c (List.mem_append_right _ List.mem_cons_self)] at last
      cases last

theorem startsBare_trimChars (chars : List Char) : StartsBare (trimChars chars) := by
  have start : trimChars chars <+: chars.dropWhile isBlank := List.rdropWhile_prefix ..
  obtain ⟨rest, whole⟩ := start
  intro c first
  have kept := List.head?_dropWhile_not isBlank chars
  rw [← whole, List.mem_head?_append_of_mem_head? first] at kept
  exact kept

theorem endsBare_trimChars (chars : List Char) : EndsBare (trimChars chars) := by
  intro c last
  have kept := List.head?_dropWhile_not isBlank (chars.dropWhile isBlank).reverse
  rw [trimChars, List.getLast?_reverse, Option.mem_def] at last
  rw [last] at kept
  exact kept

/-! ### Reading character by character -/

def WordMode.inWord : WordMode → Bool
  | .between => false
  | .comment => false
  | _ => true

/-- A character only moves the reader on, or it ends the word being read. A word is never cut short
from within, so that what was read of it stays at its end, last first. -/
theorem wordsFrom_cons (mode : WordMode) (word : List Char) (c : Char) :
    (∃ next grown, (mode.inWord → next.inWord ∧ word <:+ grown) ∧
      ∀ rest, wordsFrom mode word (c :: rest) = wordsFrom next grown rest) ∨
    ∀ rest, wordsFrom mode word (c :: rest) =
      (wordsFrom .between [] rest).map (String.ofList word.reverse :: ·) := by
  cases mode with
  | between =>
      refine .inl ?_
      by_cases parts : partsWords c
      · exact ⟨.between, [], nofun, fun _ => if_pos parts⟩
      · obtain rfl | notHash := eq_or_ne c '#'
        · exact ⟨.comment, [], nofun, fun _ => rfl⟩
        obtain rfl | notDouble := eq_or_ne c '"'
        · exact ⟨.double, [], nofun, fun _ => rfl⟩
        obtain rfl | notSingle := eq_or_ne c '\x27'
        · exact ⟨.single, [], nofun, fun _ => rfl⟩
        obtain rfl | notEscape := eq_or_ne c '\\'
        · exact ⟨.bareEscape, [], nofun, fun _ => rfl⟩
        exact ⟨.bare, c :: word, nofun, fun rest => by
          simp [wordsFrom, parts]⟩
  | comment =>
      refine .inl ?_
      by_cases feed : c = '\n'
      · exact ⟨.between, [], nofun, fun _ => if_pos feed⟩
      · exact ⟨.comment, [], nofun, fun _ => if_neg feed⟩
  | bare =>
      by_cases parts : partsWords c
      · exact .inr fun _ => if_pos parts
      · refine .inl ?_
        obtain rfl | notDouble := eq_or_ne c '"'
        · exact ⟨.double, word, fun _ => ⟨rfl, List.suffix_rfl⟩, fun _ => rfl⟩
        obtain rfl | notSingle := eq_or_ne c '\x27'
        · exact ⟨.single, word, fun _ => ⟨rfl, List.suffix_rfl⟩, fun _ => rfl⟩
        obtain rfl | notEscape := eq_or_ne c '\\'
        · exact ⟨.bareEscape, word, fun _ => ⟨rfl, List.suffix_rfl⟩, fun _ => rfl⟩
        exact ⟨.bare, c :: word, fun _ => ⟨rfl, List.suffix_cons ..⟩, fun rest => by
          simp [wordsFrom, parts]⟩
  | bareEscape =>
      refine .inl ?_
      by_cases feed : c = '\n'
      · exact ⟨.bare, word, fun _ => ⟨rfl, List.suffix_rfl⟩,
          fun _ => if_pos feed⟩
      · exact ⟨.bare, c :: word, fun _ => ⟨rfl, List.suffix_cons ..⟩,
          fun _ => if_neg feed⟩
  | single =>
      refine .inl ?_
      by_cases closing : c = '\x27'
      · exact ⟨.bare, word, fun _ => ⟨rfl, List.suffix_rfl⟩,
          fun _ => if_pos closing⟩
      · exact ⟨.single, c :: word, fun _ => ⟨rfl, List.suffix_cons ..⟩,
          fun _ => if_neg closing⟩
  | double =>
      refine .inl ?_
      obtain rfl | notClosing := eq_or_ne c '"'
      · exact ⟨.bare, word, fun _ => ⟨rfl, List.suffix_rfl⟩, fun _ => rfl⟩
      obtain rfl | notEscape := eq_or_ne c '\\'
      · exact ⟨.doubleEscape, word, fun _ => ⟨rfl, List.suffix_rfl⟩, fun _ => rfl⟩
      exact ⟨.double, c :: word, fun _ => ⟨rfl, List.suffix_cons ..⟩, fun rest => by
        simp [wordsFrom]⟩
  | doubleEscape =>
      refine .inl ?_
      by_cases yields : yieldsToEscape c
      · exact ⟨.double, c :: word, fun _ => ⟨rfl, List.suffix_cons ..⟩,
          fun _ => if_pos yields⟩
      by_cases feed : c = '\n'
      · exact ⟨.double, word, fun _ => ⟨rfl, List.suffix_rfl⟩,
          fun rest => by rw [wordsFrom, if_neg yields, if_pos feed]⟩
      · exact ⟨.double, c :: '\\' :: word,
          fun _ => ⟨rfl, (List.suffix_cons ..).trans (List.suffix_cons ..)⟩,
          fun rest => by rw [wordsFrom, if_neg yields, if_neg feed]⟩

theorem wordsFrom_of_inWord (reading : mode.inWord)
    (read : wordsFrom mode word chars = some words) :
    ∃ grown rest, words = String.ofList grown :: rest ∧ word.reverse <+: grown := by
  induction chars generalizing mode word with
  | nil =>
      cases mode with
      | bare => exact ⟨_, [], (Option.some.inj read).symm, List.prefix_rfl⟩
      | between | comment => cases reading
      | bareEscape | single | double | doubleEscape => cases read
  | cons c rest ih =>
      obtain ⟨next, grown, onward, moves⟩ | ends := wordsFrom_cons mode word c
      · obtain ⟨readingOn, longer⟩ := onward reading
        rw [moves] at read
        obtain ⟨full, others, eq, start⟩ := ih readingOn read
        exact ⟨full, others, eq, (List.reverse_prefix.2 longer).trans start⟩
      · rw [ends, Option.map_eq_some_iff] at read
        obtain ⟨others, _, rfl⟩ := read
        exact ⟨_, others, rfl, List.prefix_rfl⟩

/-! ### Reading blanks -/

section
variable {c : Char} {rest : List Char}

theorem ne_of_isBlank {other : Char} (blank : isBlank c) (marks : isBlank other = false) :
    c ≠ other := by
  rintro rfl
  rw [blank] at marks
  cases marks

theorem wordsFrom_between_of_isBlank (blank : isBlank c) (whole : ¬ partsWords c) :
    wordsFrom .between word (c :: rest) = wordsFrom .bare (c :: word) rest := by
  have notHash : c ≠ '#' := ne_of_isBlank blank rfl
  have notDouble : c ≠ '"' := ne_of_isBlank blank rfl
  have notSingle : c ≠ '\x27' := ne_of_isBlank blank rfl
  have notEscape : c ≠ '\\' := ne_of_isBlank blank rfl
  simp [wordsFrom, whole]

theorem wordsFrom_bare_of_isBlank (blank : isBlank c) (whole : ¬ partsWords c) :
    wordsFrom .bare word (c :: rest) = wordsFrom .bare (c :: word) rest := by
  have notDouble : c ≠ '"' := ne_of_isBlank blank rfl
  have notSingle : c ≠ '\x27' := ne_of_isBlank blank rfl
  have notEscape : c ≠ '\\' := ne_of_isBlank blank rfl
  simp [wordsFrom, whole]

theorem wordsFrom_comment_of_line (line : '\n' ∉ chars) :
    wordsFrom .comment word chars = some [] := by
  induction chars generalizing word with
  | nil => rfl
  | cons c rest ih =>
      obtain ⟨other, lineRest⟩ := not_or.1 (mt List.mem_cons.2 line)
      exact (if_neg (Ne.symm other)).trans (ih lineRest)

theorem wordsFrom_single_of_blanks (blank : ∀ c ∈ blanks, isBlank c) :
    wordsFrom .single word blanks = none := by
  induction blanks generalizing word with
  | nil => rfl
  | cons c rest ih =>
      obtain ⟨blankHere, blankRest⟩ := List.forall_mem_cons.1 blank
      exact (if_neg (ne_of_isBlank blankHere rfl)).trans (ih blankRest)

theorem wordsFrom_double_of_blanks (blank : ∀ c ∈ blanks, isBlank c) :
    wordsFrom .double word blanks = none := by
  induction blanks generalizing word with
  | nil => rfl
  | cons c rest ih =>
      obtain ⟨blankHere, blankRest⟩ := List.forall_mem_cons.1 blank
      have notClosing : c ≠ '"' := ne_of_isBlank blankHere rfl
      have notEscape : c ≠ '\\' := ne_of_isBlank blankHere rfl
      simp [wordsFrom, ih blankRest]

theorem wordsFrom_doubleEscape_of_blanks (blank : ∀ c ∈ blanks, isBlank c) :
    wordsFrom .doubleEscape word blanks = none := by
  cases blanks with
  | nil => rfl
  | cons c rest =>
      have quoted : ∀ word, wordsFrom .double word rest = none :=
        fun _ => wordsFrom_double_of_blanks (List.forall_mem_cons.1 blank).2
      simp only [wordsFrom, quoted, ite_self]

end

/-! ### Reading a trimmed text -/

def FirstBare (words : List String) : Prop := ∀ word ∈ words.head?, StartsBare word.toList

def LastBare (words : List String) : Prop := ∀ word ∈ words.getLast?, EndsBare word.toList

theorem lastBare_of_cons {first : String} {rest : List String} (bare : LastBare (first :: rest)) :
    LastBare rest := by
  intro word last
  exact bare word (by rw [List.getLast?_cons, last]; rfl)

theorem not_lastBare {c : Char} (blank : isBlank c) :
    ¬ LastBare [String.ofList (c :: word).reverse] := by
  intro bare
  have last := bare _ rfl c (by simp)
  rw [blank] at last
  cases last

theorem wordsFrom_of_append_of_firstBare (blank : ∀ c ∈ blanks, isBlank c)
    (read : wordsFrom .between [] (blanks ++ chars) = some words) (bare : FirstBare words) :
    wordsFrom .between [] chars = some words := by
  induction blanks with
  | nil => exact read
  | cons c rest ih =>
      obtain ⟨blankHere, blankRest⟩ := List.forall_mem_cons.1 blank
      by_cases parts : partsWords c
      · exact ih blankRest ((if_pos parts).symm.trans read)
      · rw [List.cons_append, wordsFrom_between_of_isBlank blankHere parts] at read
        obtain ⟨grown, others, rfl, more, rfl⟩ := wordsFrom_of_inWord rfl read
        have first := bare _ rfl c (by rw [String.toList_ofList]; rfl)
        rw [blankHere] at first
        cases first

theorem wordsFrom_blanks (blank : ∀ c ∈ blanks, isBlank c) :
    (∀ {word words}, wordsFrom .between word blanks = some words → LastBare words → words = []) ∧
    ∀ {c word words}, isBlank c → wordsFrom .bare (c :: word) blanks = some words →
      ¬ LastBare words := by
  induction blanks with
  | nil =>
      refine ⟨fun read _ => (Option.some.inj read).symm, fun blankHere read bare => ?_⟩
      obtain rfl := Option.some.inj read
      exact not_lastBare blankHere bare
  | cons next rest ih =>
      obtain ⟨blankNext, blankRest⟩ := List.forall_mem_cons.1 blank
      obtain ⟨between, bareWord⟩ := ih blankRest
      by_cases parts : partsWords next
      · refine ⟨fun read => between ((if_pos parts).symm.trans read),
          fun blankHere read bare => ?_⟩
        have ended := (if_pos parts).symm.trans read
        obtain ⟨others, readOthers, rfl⟩ := Option.map_eq_some_iff.1 ended
        obtain rfl := between readOthers (lastBare_of_cons bare)
        exact not_lastBare blankHere bare
      · refine ⟨fun read bare => ?_, fun blankHere read => ?_⟩
        · rw [wordsFrom_between_of_isBlank blankNext parts] at read
          exact absurd bare (bareWord blankNext read)
        · rw [wordsFrom_bare_of_isBlank blankNext parts] at read
          exact bareWord blankNext read

theorem wordsFrom_nil_of_lastBare (blank : ∀ c ∈ blanks, isBlank c) (line : '\n' ∉ blanks)
    (read : wordsFrom mode word blanks = some words) (bare : LastBare words) :
    wordsFrom mode word [] = some words := by
  obtain ⟨between, bareWord⟩ := wordsFrom_blanks blank
  cases mode with
  | between =>
      obtain rfl := between read bare
      rfl
  | comment =>
      rw [wordsFrom_comment_of_line line] at read
      exact read
  | single => rw [wordsFrom_single_of_blanks blank] at read; cases read
  | double => rw [wordsFrom_double_of_blanks blank] at read; cases read
  | bare =>
      cases blanks with
      | nil => exact read
      | cons c rest =>
          obtain ⟨blankHere, blankRest⟩ := List.forall_mem_cons.1 blank
          by_cases parts : partsWords c
          · have ended := (if_pos parts).symm.trans read
            obtain ⟨others, readOthers, rfl⟩ := Option.map_eq_some_iff.1 ended
            obtain rfl := (wordsFrom_blanks blankRest).1 readOthers (lastBare_of_cons bare)
            rfl
          · rw [wordsFrom_bare_of_isBlank blankHere parts] at read
            exact absurd bare ((wordsFrom_blanks blankRest).2 blankHere read)
  | bareEscape =>
      cases blanks with
      | nil => cases read
      | cons c rest =>
          obtain ⟨blankHere, blankRest⟩ := List.forall_mem_cons.1 blank
          have other : c ≠ '\n' := fun feed => line (feed ▸ List.mem_cons_self)
          have read := (if_neg other).symm.trans read
          exact absurd bare ((wordsFrom_blanks blankRest).2 blankHere read)
  | doubleEscape => rw [wordsFrom_doubleEscape_of_blanks blank] at read; cases read

theorem wordsFrom_of_append_of_lastBare (blank : ∀ c ∈ blanks, isBlank c) (line : '\n' ∉ blanks)
    (read : wordsFrom mode word (chars ++ blanks) = some words) (bare : LastBare words) :
    wordsFrom mode word chars = some words := by
  induction chars generalizing mode word words with
  | nil => exact wordsFrom_nil_of_lastBare blank line read bare
  | cons c rest ih =>
      rw [List.cons_append] at read
      obtain ⟨next, grown, -, moves⟩ | ends := wordsFrom_cons mode word c
      · rw [moves] at read ⊢
        exact ih read bare
      · rw [ends, Option.map_eq_some_iff] at read
        obtain ⟨others, readOthers, rfl⟩ := read
        rw [ends, ih readOthers (lastBare_of_cons bare)]
        rfl

theorem words?_trim_of_lastBare {text : String} (start : StartsBare text.toList)
    (line : '\n' ∉ text.toList) (read : words? text = some words) (bare : LastBare words) :
    words? (trim text) = some words := by
  obtain ⟨trail, blank, split⟩ := exists_trail_of_startsBare start
  rw [words?, split] at read
  rw [split] at line
  rw [words?, trim, String.toList_ofList]
  exact wordsFrom_of_append_of_lastBare blank (mt (List.mem_append_right _) line) read bare

theorem words?_trim_of_firstBare {text : String} (stop : EndsBare text.toList)
    (read : words? text = some words) (bare : FirstBare words) :
    words? (trim text) = some words := by
  obtain ⟨lead, blank, split⟩ := exists_lead_of_endsBare stop
  rw [words?, split] at read
  rw [words?, trim, String.toList_ofList]
  exact wordsFrom_of_append_of_firstBare blank read bare

end TagScript.Text
