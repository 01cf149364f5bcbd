import TagScript.Table

/-! Names in a table, and what setting or erasing one changes. -/

namespace TagScript.Table

variable {α : Type} {table : Table α}

theorem mem_of_get? {name : String} {value : α} (found : table.get? name = some value) :
    (name, value) ∈ table := by
  obtain ⟨_, _, split, _⟩ := List.lookup_eq_some_iff.1 found
  rw [split]
  exact List.mem_append_right _ List.mem_cons_self

theorem mem_set {name : String} {value : α} {pair : String × α}
    (member : pair ∈ table.set name value) : pair = (name, value) ∨ pair ∈ table := by
  induction table with
  | nil => exact .inl (List.mem_singleton.1 member)
  | cons first rest ih =>
      obtain ⟨other, held⟩ := first
      rw [Table.set] at member
      split at member
      · exact (List.mem_cons.1 member).imp_right (List.mem_cons_of_mem _)
      · rcases List.mem_cons.1 member with rfl | member
        · exact .inr List.mem_cons_self
        · exact (ih member).imp_right (List.mem_cons_of_mem _)

theorem set_of_not_mem {name : String} (new : name ∉ table.names) (value : α) :
    table.set name value = table ++ [(name, value)] := by
  induction table with
  | nil => rfl
  | cons first rest ih =>
      obtain ⟨other, held⟩ := first
      simp only [names, List.map_cons, List.mem_cons, not_or] at new
      rw [set, if_neg (Ne.symm new.1), ih new.2, List.cons_append]

theorem get?_set (name : String) (value : α) (table : Table α) :
    (table.set name value).get? name = some value := by
  induction table with
  | nil => simp [set, get?]
  | cons first rest ih =>
      obtain ⟨other, held⟩ := first
      rw [set]
      split
      · simp [get?]
      · rename_i different
        rw [get?, List.lookup_cons, beq_eq_false_iff_ne.2 (Ne.symm different)]
        exact ih

theorem get?_set_of_ne {name other : String} (different : other ≠ name) (value : α)
    (table : Table α) : (table.set name value).get? other = table.get? other := by
  induction table with
  | nil => simp [set, get?, different]
  | cons first rest ih =>
      obtain ⟨held, item⟩ := first
      rw [set]
      split
      · rename_i same
        subst same
        rw [get?, get?, List.lookup_cons, List.lookup_cons, beq_eq_false_iff_ne.2 different]
      · rw [get?, get?, List.lookup_cons, List.lookup_cons]
        split
        · rfl
        · exact ih

theorem get?_foldl_set (names : List String) (value : α) (table : Table α) (name : String) :
    (names.foldl (fun table name => Table.set name value table) table).get? name =
      if name ∈ names then some value else table.get? name := by
  induction names generalizing table with
  | nil => simp
  | cons first rest ih =>
      rw [List.foldl_cons, ih]
      by_cases later : name ∈ rest
      · rw [if_pos later, if_pos (List.mem_cons_of_mem _ later)]
      · rw [if_neg later]
        by_cases here : name = first
        · rw [here, get?_set, if_pos List.mem_cons_self]
        · rw [get?_set_of_ne here, if_neg fun member => (List.mem_cons.1 member).elim here later]

theorem get?_of_mem {name : String} {value : α} (unique : table.names.Nodup)
    (member : (name, value) ∈ table) : table.get? name = some value := by
  induction table with
  | nil => cases member
  | cons first rest ih =>
      obtain ⟨other, held⟩ := first
      obtain ⟨fresh, unique⟩ := List.nodup_cons.1 unique
      rw [get?, List.lookup_cons]
      rcases List.mem_cons.1 member with same | later
      · cases same
        simp
      · have different : name ≠ other := by
          rintro rfl
          exact fresh (List.mem_map.2 ⟨_, later, rfl⟩)
        rw [beq_eq_false_iff_ne.2 different]
        exact ih unique later

theorem mem_names_set {name other : String} {value : α} (member : other ∈ (table.set name value).names) :
    other = name ∨ other ∈ table.names := by
  obtain ⟨pair, found, rfl⟩ := List.mem_map.1 member
  rcases mem_set found with rfl | old
  · exact .inl rfl
  · exact .inr (List.mem_map_of_mem old)

theorem nodup_set {name : String} {value : α} (unique : table.names.Nodup) :
    (table.set name value).names.Nodup := by
  induction table with
  | nil => exact List.pairwise_singleton _ name
  | cons first rest ih =>
      obtain ⟨other, held⟩ := first
      obtain ⟨fresh, unique⟩ := List.nodup_cons.1 unique
      rw [set]
      split
      · rename_i same
        subst same
        exact List.nodup_cons.2 ⟨fresh, unique⟩
      · rename_i different
        refine List.nodup_cons.2 ⟨fun member => ?_, ih unique⟩
        rcases mem_names_set member with same | old
        · exact different same
        · exact fresh old

theorem nodup_erase {name : String} (unique : table.names.Nodup) :
    (table.erase name).names.Nodup :=
  unique.sublist ((List.filter_sublist).map _)

theorem get?_erase (name : String) (table : Table α) : (table.erase name).get? name = none := by
  rw [get?, List.lookup_eq_none_iff]
  intro pair member
  simpa [bne_comm] using (List.mem_filter.1 member).2

theorem get?_erase_of_ne {name other : String} (different : other ≠ name) (table : Table α) :
    (table.erase name).get? other = table.get? other := by
  induction table with
  | nil => rfl
  | cons first rest ih =>
      obtain ⟨held, item⟩ := first
      rw [erase, List.filter_cons]
      split
      · rw [get?, get?, List.lookup_cons, List.lookup_cons]
        split
        · rfl
        · exact ih
      · rename_i same
        have apart : other ≠ held := by
          intro matched
          subst matched
          simp [different] at same
        rw [get?, get?, List.lookup_cons, beq_eq_false_iff_ne.2 apart]
        exact ih

variable {name : String}

theorem get?_map (change : String × α → α) (table : Table α) (name : String) :
    Table.get? name (table.map fun pair => (pair.1, change pair)) =
      (table.get? name).map fun value => change (name, value) := by
  induction table with
  | nil => rfl
  | cons first rest ih =>
      obtain ⟨other, held⟩ := first
      rw [get?] at ih ⊢
      rw [get?, List.map_cons, List.lookup_cons, List.lookup_cons]
      cases same : name == other with
      | true => simp [eq_of_beq same]
      | false => exact ih

theorem get?_eq_none_iff : table.get? name = none ↔ name ∉ table.names := by
  rw [get?, List.lookup_eq_none_iff, names, List.mem_map, not_exists]
  constructor
  · rintro absent pair ⟨member, rfl⟩
    simpa using absent pair member
  · rintro absent pair member
    have different : name ≠ pair.1 := fun same => absent pair ⟨member, same.symm⟩
    simpa using different

theorem set_of_mem (unique : table.names.Nodup) (member : name ∈ table.names) (value : α) :
    table.set name value =
      table.map fun pair => (pair.1, if pair.1 = name then value else pair.2) := by
  induction table with
  | nil => cases member
  | cons first rest ih =>
      obtain ⟨other, held⟩ := first
      obtain ⟨fresh, unique⟩ := List.nodup_cons.1 unique
      rw [set, List.map_cons]
      by_cases same : other = name
      · subst same
        have kept : rest.map (fun pair => (pair.1, if pair.1 = other then value else pair.2)) =
            rest := by
          refine (List.map_congr_left fun pair known => ?_).trans (List.map_id rest)
          rw [if_neg]
          · rfl
          rintro rfl
          exact fresh (List.mem_map.2 ⟨pair, known, rfl⟩)
        rw [if_pos rfl, kept]
        exact congrArg (· :: rest) (by simp)
      · rcases List.mem_cons.1 member with here | later
        · exact absurd here.symm same
        · rw [if_neg same, ih unique later]
          exact congrArg (· :: _) (by simp [same])

theorem erase_of_not_mem (absent : name ∉ table.names) : table.erase name = table := by
  refine List.filter_eq_self.2 fun pair member => bne_iff_ne.2 ?_
  rintro rfl
  exact absent (List.mem_map_of_mem member)

theorem length_erase (unique : table.names.Nodup) (member : name ∈ table.names) :
    (table.erase name).length + 1 = table.length := by
  induction table with
  | nil => cases member
  | cons first rest ih =>
      obtain ⟨fresh, unique⟩ := List.nodup_cons.1 unique
      by_cases same : first.1 = name
      · subst same
        have kept : Table.erase first.1 rest = rest := erase_of_not_mem fresh
        rw [erase, List.filter_cons_of_neg (by simp), List.length_cons]
        exact congrArg (List.length · + 1) kept
      · rcases List.mem_cons.1 member with here | later
        · exact absurd here.symm same
        · rw [erase, List.filter_cons_of_pos (by simpa using same), List.length_cons,
            List.length_cons]
          exact congrArg (· + 1) (ih unique later)

end TagScript.Table
