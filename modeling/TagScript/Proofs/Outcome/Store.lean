import TagScript.Outcome

/-! What the store of determinations gives back after a change. -/

namespace TagScript.OutcomeStore

variable {fire other : FireId} {store : OutcomeStore} {values : List (FireId × List String)}

/-! Values by firing. -/

theorem lookup_filter_ne (gone fire : FireId) (values : List (FireId × List String)) :
    (values.filter (·.1 != gone)).lookup fire =
      if fire = gone then none else values.lookup fire := by
  induction values with
  | nil => simp
  | cons first rest ih =>
      obtain ⟨owner, filed⟩ := first
      by_cases mine : owner = gone <;> by_cases asked : fire = owner
      · subst mine asked
        simpa using ih
      · subst mine
        simpa [asked, List.lookup_cons, beq_eq_false_iff_ne.2 asked] using ih
      · subst asked
        simp [mine]
      · simpa [mine, List.lookup_cons, beq_eq_false_iff_ne.2 asked] using ih

theorem lookup_push (fire other : FireId) (value : String)
    (values : List (FireId × List String)) :
    (push fire value values).lookup other =
      if other = fire then some ((values.lookup fire).getD [] ++ [value])
      else values.lookup other := by
  induction values with
  | nil =>
      by_cases asked : other = fire
      · simp [push, asked]
      · simp [push, List.lookup_cons, asked, beq_eq_false_iff_ne.2 asked]
  | cons first rest ih =>
      obtain ⟨owner, filed⟩ := first
      rw [push]
      by_cases mine : owner = fire
      · subst mine
        by_cases asked : other = owner
        · simp [asked]
        · simp [List.lookup_cons, asked, beq_eq_false_iff_ne.2 asked]
      · by_cases asked : other = owner
        · subst asked
          simp [mine]
        · have apart : (fire == owner) = false := beq_eq_false_iff_ne.2 (Ne.symm mine)
          simp [mine, List.lookup_cons, beq_eq_false_iff_ne.2 asked, apart, ih]

/-! Making room. -/

theorem makeRoom_sublist (capacity : Nat) (order : List FireId)
    (values : List (FireId × List String)) : (makeRoom capacity order values).2.2.Sublist values := by
  induction order generalizing values with
  | nil => exact List.Sublist.refl _
  | cons oldest later ih =>
      rw [makeRoom]
      split
      · exact List.Sublist.refl _
      · exact (ih _).trans List.filter_sublist

theorem lookup_makeRoom_none (capacity : Nat) (order : List FireId)
    (absent : values.lookup fire = none) :
    (makeRoom capacity order values).2.2.lookup fire = none :=
  List.lookup_eq_none_iff.2 fun filed member =>
    List.lookup_eq_none_iff.1 absent filed ((makeRoom_sublist capacity order values).subset member)

theorem lookup_makeRoom (capacity : Nat) (order : List FireId)
    (values : List (FireId × List String)) (kept : fire ∉ (makeRoom capacity order values).1) :
    (makeRoom capacity order values).2.2.lookup fire = values.lookup fire := by
  induction order generalizing values with
  | nil => rfl
  | cons oldest later ih =>
      rw [makeRoom] at kept ⊢
      split at kept
      · rename_i fits
        rw [if_pos fits]
      · rename_i full
        rw [if_neg full]
        dsimp only at kept ⊢
        by_cases first : fire = oldest
        · -- it is dropped unless it has no values
          subst first
          have absent : values.lookup fire = none := by
            cases held : values.lookup fire with
            | none => rfl
            | some filed => simp [held] at kept
          rw [absent, lookup_makeRoom_none]
          rw [lookup_filter_ne, if_pos rfl]
        · have later : fire ∉ (makeRoom capacity later (values.filter (·.1 != oldest))).1 := by
            split at kept
            · exact fun member => kept (List.mem_cons_of_mem _ member)
            · exact kept
          rw [ih _ later, lookup_filter_ne, if_neg first]

/-! Filing and taking values. -/

theorem record_of_held (held : (store.get? fire).isSome = true) (value : String) :
    store.record fire value = ([], { store with values := push fire value store.values }) := by
  rw [record, if_pos held]

theorem record_of_new (new : store.get? fire = none) (value : String) :
    store.record fire value =
      ((makeRoom store.capacity store.order store.values).1,
        { store with
          order := (makeRoom store.capacity store.order store.values).2.1 ++ [fire]
          values := push fire value (makeRoom store.capacity store.order store.values).2.2 }) := by
  rw [record, if_neg (by simp [new])]

theorem get?_record_self (fire : FireId) (value : String) (store : OutcomeStore) :
    (store.record fire value).2.get? fire = some ((store.get? fire).getD [] ++ [value]) := by
  cases found : store.get? fire with
  | some values =>
      rw [record_of_held (by simp [found]), get?, lookup_push, if_pos rfl]
      rw [get?] at found
      rw [found]
  | none =>
      rw [record_of_new found, get?, lookup_push, if_pos rfl, lookup_makeRoom_none _ _ found]

theorem get?_record_of_ne (different : other ≠ fire) {value : String}
    (kept : other ∉ (store.record fire value).1) :
    (store.record fire value).2.get? other = store.get? other := by
  cases found : store.get? fire with
  | some values =>
      rw [record_of_held (by simp [found]), get?, lookup_push, if_neg different, get?]
  | none =>
      rw [record_of_new found] at kept ⊢
      rw [get?, lookup_push, if_neg different, lookup_makeRoom _ _ _ kept, get?]

theorem get?_record_none (different : other ≠ fire) (value : String)
    (absent : store.get? other = none) : (store.record fire value).2.get? other = none := by
  cases found : store.get? fire with
  | some values =>
      rw [record_of_held (by simp [found]), get?, lookup_push, if_neg different]
      exact absent
  | none =>
      rw [record_of_new found, get?, lookup_push, if_neg different]
      exact lookup_makeRoom_none _ _ absent

theorem get?_take (fire other : FireId) (store : OutcomeStore) :
    (store.take fire).2.get? other = if other = fire then none else store.get? other := by
  unfold take
  dsimp only
  split
  · exact lookup_filter_ne fire other store.values
  · rename_i absent
    by_cases asked : other = fire
    · rw [if_pos asked, asked]
      exact Option.not_isSome_iff_eq_none.1 absent
    · rw [if_neg asked]

end TagScript.OutcomeStore
