import TagScript.Tag.Escape

/-! Escaping and back. Texts without stand-ins come back unchanged, and no unescaped text has a
stand-in left. -/

namespace TagScript.Tag

/-- A text in which no character stands in for another. -/
def Unmarked (text : String) : Prop :=
  ∀ c ∈ text.toList, isStandIn c = false

theorem unescapeChar_of_unmarked {c : Char} (unmarked : isStandIn c = false) :
    unescapeChar c = c := by
  have missing : standIns.find? (·.2 == c) = none := by
    apply List.find?_eq_none.2
    intro pair member
    exact List.any_eq_false.1 unmarked pair member
  simp [unescapeChar, missing]

theorem unescapeChar_escapeChar {c : Char} (unmarked : isStandIn c = false) :
    unescapeChar (escapeChar c) = c := by
  have backwards : ∀ pair ∈ standIns, unescapeChar pair.2 = pair.1 := by decide
  cases found : standIns.find? (·.1 == c) with
  | none => simpa [escapeChar, found] using unescapeChar_of_unmarked unmarked
  | some pair =>
      have same : pair.1 = c := by simpa using List.find?_some found
      simpa [escapeChar, found, same] using backwards pair (List.mem_of_find?_eq_some found)

theorem isStandIn_unescapeChar (c : Char) : isStandIn (unescapeChar c) = false := by
  have syntaxOnly : ∀ pair ∈ standIns, isStandIn pair.1 = false := by decide
  cases found : standIns.find? (·.2 == c) with
  | none =>
      have unmarked : isStandIn c = false := by
        simpa [isStandIn] using List.find?_eq_none.1 found
      simpa [unescapeChar, found] using unmarked
  | some pair =>
      simpa [unescapeChar, found] using syntaxOnly pair (List.mem_of_find?_eq_some found)

theorem unescape_escape {text : String} (unmarked : Unmarked text) :
    unescape (escape text) = text := by
  have restored : text.toList.map (unescapeChar ∘ escapeChar) = text.toList.map id :=
    List.map_congr_left fun c member => unescapeChar_escapeChar (unmarked c member)
  simp [unescape, escape, List.map_map, restored]

theorem unmarked_unescape (text : String) : Unmarked (unescape text) := by
  intro c member
  simp only [unescape, String.toList_ofList, List.mem_map] at member
  obtain ⟨original, _, rfl⟩ := member
  exact isStandIn_unescapeChar original

@[simp] theorem unescape_append (left right : String) :
    unescape (left ++ right) = unescape left ++ unescape right := by
  simp [unescape]

end TagScript.Tag
