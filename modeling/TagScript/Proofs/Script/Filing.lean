import TagScript.Proofs.Script.Outside
import TagScript.Proofs.Table

/-! How the words of an entry are filed. Words outside braces are arguments, in order, except that
those with a declared word in front are kept by that word; only where two of them have the same one
does the later take the place of the other. -/

namespace TagScript

theorem sortedTexts_perm (texts : List String) : (sortedTexts texts).Perm texts :=
  List.mergeSort_perm texts _

namespace Arguments

def named? (known : List String) (argument : String) : Option (String × Argument) :=
  (declared? known argument).map fun (word, value) => (Text.asciiLower word, ⟨value, false⟩)

def shown (named : String × Argument) : String :=
  named.1 ++ ":" ++ named.2.value

def lowered (known : List String) (argument : String) : String :=
  ((named? known argument).map shown).getD argument

def unnamed (known : List String) (words : List String) : List String :=
  words.filter fun word => (named? known word).isNone

def Distinct (known words : List String) : Prop :=
  (Table.names (words.filterMap (named? known))).Nodup

variable {known words : List String} {arguments : Arguments} {word : String}

theorem add_of_unnamed (unnamed : named? known word = none) :
    arguments.add known word =
      { arguments with positional := arguments.positional ++ [⟨word, false⟩] } := by
  rw [add, Option.map_eq_none_iff.1 unnamed]

theorem add_of_named {name : String} {argument : Argument}
    (named : named? known word = some (name, argument)) :
    arguments.add known word =
      { arguments with prefixed := arguments.prefixed.set name argument } := by
  obtain ⟨⟨_, _⟩, declared, same⟩ := Option.map_eq_some_iff.1 named
  obtain ⟨rfl, rfl⟩ := Prod.mk.inj same
  rw [add, declared]

structure Fresh (arguments : Arguments) : Prop where
  positional : ∀ argument ∈ arguments.positional, argument.read = false
  prefixed : ∀ named ∈ arguments.prefixed, named.2.read = false
  unique : arguments.prefixed.names.Nodup

namespace Fresh

theorem empty : Fresh ⟨[], []⟩ := ⟨by simp, by simp, List.nodup_nil⟩

theorem add (fresh : arguments.Fresh) (known : List String) (word : String) :
    (arguments.add known word).Fresh := by
  cases named : named? known word with
  | none =>
      rw [add_of_unnamed named]
      refine ⟨fun argument member => ?_, fresh.prefixed, fresh.unique⟩
      rcases List.mem_append.1 member with member | member
      · exact fresh.positional argument member
      · obtain rfl := List.mem_singleton.1 member
        rfl
  | some pair =>
      obtain ⟨name, argument⟩ := pair
      rw [add_of_named named]
      refine ⟨fresh.positional, fun other member => ?_, Table.nodup_set fresh.unique⟩
      rcases Table.mem_set member with rfl | member
      · obtain ⟨_, _, same⟩ := Option.map_eq_some_iff.1 named
        exact congrArg (·.2.read) same.symm
      · exact fresh.prefixed other member

theorem foldl_add (fresh : arguments.Fresh) (known words : List String) :
    (words.foldl (Arguments.add known) arguments).Fresh := by
  induction words generalizing arguments with
  | nil => exact fresh
  | cons word rest ih => exact ih (fresh.add known word)

theorem ofFilled (known words : List String) : (Arguments.ofFilled known words).Fresh := by
  rw [ofFilled_eq_foldl]
  exact empty.foldl_add known _

theorem unread (fresh : arguments.Fresh) :
    arguments.unread =
      arguments.positional.map (·.value) ++ sortedTexts (arguments.prefixed.map shown) := by
  have positional : arguments.positional.filter (!·.read) = arguments.positional :=
    List.filter_eq_self.2 fun argument member => by simp [fresh.positional argument member]
  have prefixed : arguments.prefixed.filter (!·.2.read) = arguments.prefixed :=
    List.filter_eq_self.2 fun named member => by simp [fresh.prefixed named member]
  rw [Arguments.unread, positional, prefixed]
  rfl

end Fresh

theorem foldl_add_of_distinct
    (distinct : (arguments.prefixed ++ words.filterMap (named? known)).names.Nodup) :
    words.foldl (add known) arguments =
      ⟨arguments.positional ++ (unnamed known words).map (⟨·, false⟩),
        arguments.prefixed ++ words.filterMap (named? known)⟩ := by
  induction words generalizing arguments with
  | nil => simp [unnamed]
  | cons word rest ih =>
      rw [List.foldl_cons]
      cases named : named? known word with
      | none =>
          rw [List.filterMap_cons_none named] at distinct ⊢
          rw [add_of_unnamed named, ih]
          · simp [unnamed, named]
          · exact distinct
      | some pair =>
          obtain ⟨name, argument⟩ := pair
          rw [List.filterMap_cons_some named] at distinct ⊢
          have new : name ∉ arguments.prefixed.names := by
            rw [Table.names, List.map_append, List.map_cons] at distinct
            intro member
            exact (List.nodup_append.1 distinct).2.2 name member name List.mem_cons_self rfl
          rw [add_of_named named, Table.set_of_not_mem new, ih]
          · simp [unnamed, named]
          · simpa using distinct

theorem perm_lowered (known words : List String) :
    (unnamed known words ++ (words.filterMap (named? known)).map shown).Perm
      (words.map (lowered known)) := by
  induction words with
  | nil => exact .nil
  | cons word rest ih =>
      cases named : named? known word with
      | none =>
          have first : lowered known word = word := by rw [lowered, named]; rfl
          rw [List.filterMap_cons_none named, List.map_cons, first, unnamed,
            List.filter_cons_of_pos (by simp [named])]
          exact ih.cons word
      | some pair =>
          have first : lowered known word = shown pair := by rw [lowered, named]; rfl
          rw [List.filterMap_cons_some named, List.map_cons, List.map_cons, first, unnamed,
            List.filter_cons_of_neg (by simp [named])]
          exact List.perm_middle.trans (ih.cons _)

variable {filled : List String}

theorem ofFilled_of_distinct (distinct : Distinct known (outsideWords filled)) :
    ofFilled known filled =
      ⟨(unnamed known (outsideWords filled)).map (⟨·, false⟩),
        (outsideWords filled).filterMap (named? known)⟩ := by
  rw [ofFilled_eq_foldl, foldl_add_of_distinct]
  · rfl
  · exact distinct

theorem size_ofFilled (distinct : Distinct known (outsideWords filled)) :
    (ofFilled known filled).size = (outsideWords filled).length := by
  have count := (perm_lowered known (outsideWords filled)).length_eq
  rw [List.length_append, List.length_map, List.length_map] at count
  rw [ofFilled_of_distinct distinct, size, List.length_map, count]

theorem unread_ofFilled (distinct : Distinct known (outsideWords filled)) :
    (ofFilled known filled).unread.Perm ((outsideWords filled).map (lowered known)) := by
  rw [(Fresh.ofFilled known filled).unread, ofFilled_of_distinct distinct, List.map_map]
  refine List.Perm.trans ?_ (perm_lowered known (outsideWords filled))
  rw [Function.comp_def, List.map_id']
  exact (sortedTexts_perm _).append_left _

end Arguments

end TagScript
