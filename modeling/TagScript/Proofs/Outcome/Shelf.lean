import TagScript.Proofs.Outcome.Store
import Mathlib.Data.List.Basic
import Mathlib.Data.List.Perm.Basic

/-! The store of determinations is a shelf: firings with their values in one row, new ones at the
back. When it is full the firings at the front have to go. -/

namespace TagScript

inductive StoreCall where
  | record (fire : FireId) (value : String)
  | get (fire : FireId)
  | first (fire : FireId)
  | take (fire : FireId)

inductive StoreReply where
  | dropped (fires : List FireId)
  | values (found : Option (List String))
  | value (found : Option String)
  deriving DecidableEq

/-- The firings that are kept, the oldest first, with their values. -/
abbrev Shelf := List (FireId × List String)

namespace Shelf

def fires (shelf : Shelf) : List FireId := shelf.map (·.1)

def record (room : Nat) (fire : FireId) (value : String) (shelf : Shelf) : List FireId × Shelf :=
  if fire ∈ shelf.fires then
    ([], shelf.map fun kept => if kept.1 = fire then (fire, kept.2 ++ [value]) else kept)
  else
    let excess := shelf.length + 1 - room
    (fires (List.take excess shelf), List.drop excess shelf ++ [(fire, [value])])

def reply (room : Nat) : StoreCall → Shelf → StoreReply × Shelf
  | .record fire value, shelf => (shelf.record room fire value).map .dropped id
  | .get fire, shelf => (.values (shelf.lookup fire), shelf)
  | .first fire, shelf => (.value ((shelf.lookup fire).bind (·.head?)), shelf)
  | .take fire, shelf => (.values (shelf.lookup fire), shelf.filter (·.1 != fire))

def replies (room : Nat) : List StoreCall → Shelf → List StoreReply × Shelf
  | [], shelf => ([], shelf)
  | call :: rest, shelf =>
    let (reply, next) := shelf.reply room call
    (replies room rest next).map (reply :: ·) id

end Shelf

namespace OutcomeStore

def reply : StoreCall → OutcomeStore → StoreReply × OutcomeStore
  | .record fire value, store => (store.record fire value).map .dropped id
  | .get fire, store => (.values (store.get? fire), store)
  | .first fire, store => (.value (store.first? fire), store)
  | .take fire, store => (store.take fire).map .values id

def replies : List StoreCall → OutcomeStore → List StoreReply × OutcomeStore
  | [], store => ([], store)
  | call :: rest, store =>
    let (reply, next) := store.reply call
    (replies rest next).map (reply :: ·) id

variable {fire : FireId} {store : OutcomeStore} {values : List (FireId × List String)} {shelf : Shelf}

/-! Firings and their values. -/

theorem isSome_lookup_iff (fire : FireId) (shelf : Shelf) :
    (shelf.lookup fire).isSome ↔ fire ∈ shelf.fires := by
  induction shelf with
  | nil => simp [Shelf.fires]
  | cons first rest ih =>
      rw [List.lookup_cons, Shelf.fires, List.map_cons, List.mem_cons]
      by_cases here : fire = first.1
      · simp [here]
      · rw [beq_eq_false_iff_ne.2 here, ← Shelf.fires, ih]
        exact ⟨.inr, (·.resolve_left here)⟩

theorem fires_push (fire : FireId) (value : String) (shelf : Shelf) :
    Shelf.fires (push fire value shelf) =
      if fire ∈ shelf.fires then shelf.fires else shelf.fires ++ [fire] := by
  induction shelf with
  | nil => simp [push, Shelf.fires]
  | cons first rest ih =>
      obtain ⟨other, held⟩ := first
      rw [push]
      by_cases here : other = fire
      · simp [Shelf.fires, here]
      · have same : fire ∈ Shelf.fires ((other, held) :: rest) ↔ fire ∈ Shelf.fires rest :=
          List.mem_cons.trans (or_iff_right (Ne.symm here))
        rw [if_neg here, if_congr same rfl rfl]
        refine (congrArg (other :: ·) ih).trans ?_
        split
        next => rfl
        next => rfl

theorem push_of_not_mem (new : fire ∉ shelf.fires) (value : String) :
    push fire value shelf = shelf ++ [(fire, [value])] := by
  induction shelf with
  | nil => rfl
  | cons first rest ih =>
      obtain ⟨other, held⟩ := first
      simp only [Shelf.fires, List.map_cons, List.mem_cons, not_or] at new
      rw [push, if_neg (Ne.symm new.1), ih new.2, List.cons_append]

theorem push_of_mem (unique : shelf.fires.Nodup) (known : fire ∈ shelf.fires) (value : String) :
    push fire value shelf =
      shelf.map fun kept => if kept.1 = fire then (fire, kept.2 ++ [value]) else kept := by
  induction shelf with
  | nil => cases known
  | cons first rest ih =>
      obtain ⟨other, held⟩ := first
      obtain ⟨fresh, unique⟩ := List.nodup_cons.1 unique
      rw [push, List.map_cons]
      by_cases here : other = fire
      · subst here
        have others : rest.map (fun kept =>
            if kept.1 = other then (other, kept.2 ++ [value]) else kept) = rest := by
          refine (List.map_congr_left fun kept member => if_neg ?_).trans (List.map_id rest)
          exact fun same => fresh (List.mem_map.2 ⟨kept, member, same⟩)
        rw [if_pos rfl, if_pos rfl, others]
      · have later : fire ∈ Shelf.fires rest :=
          (List.mem_cons.1 known).resolve_left (Ne.symm here)
        rw [if_neg here, if_neg here, ih unique later]

theorem filter_of_not_mem (absent : fire ∉ shelf.fires) : shelf.filter (·.1 != fire) = shelf := by
  refine List.filter_eq_self.2 fun kept member => bne_iff_ne.2 ?_
  rintro rfl
  exact absent (List.mem_map_of_mem member)

theorem fires_filter (fire : FireId) (shelf : Shelf) :
    Shelf.fires (shelf.filter (·.1 != fire)) = shelf.fires.filter (· != fire) := by
  simp only [Shelf.fires, List.filter_map, Function.comp_def]

/-! The values are those of the shelf, in whatever order. -/

structure Filed (shelf : Shelf) (values : List (FireId × List String)) : Prop where
  unique : shelf.fires.Nodup
  owners : (Shelf.fires values).Perm shelf.fires
  found (fire : FireId) : values.lookup fire = shelf.lookup fire

namespace Filed

theorem erase (filed : Filed shelf values) (fire : FireId) :
    Filed (shelf.filter (·.1 != fire)) (values.filter (·.1 != fire)) where
  unique := by
    rw [fires_filter]
    exact filed.unique.filter _
  owners := by
    rw [fires_filter, fires_filter]
    exact filed.owners.filter _
  found other := by rw [lookup_filter_ne, lookup_filter_ne, filed.found]

theorem push (filed : Filed shelf values) (fire : FireId) (value : String) :
    Filed (push fire value shelf) (push fire value values) where
  unique := by
    rw [fires_push]
    split
    next => exact filed.unique
    next new => exact List.nodup_append.2 ⟨filed.unique, List.pairwise_singleton _ _, by grind⟩
  owners := by
    rw [fires_push, fires_push]
    simp only [filed.owners.mem_iff]
    split
    next => exact filed.owners
    next => exact filed.owners.append_right _
  found other := by rw [lookup_push, lookup_push, filed.found, filed.found]

theorem isSome_iff (filed : Filed shelf values) (fire : FireId) :
    (values.lookup fire).isSome ↔ fire ∈ shelf.fires := by
  rw [filed.found, isSome_lookup_iff]

theorem makeRoom (filed : Filed shelf values) (capacity : Nat) :
    ∃ left, makeRoom capacity shelf.fires values =
        (Shelf.fires (shelf.take (shelf.length + 1 - capacity)),
          Shelf.fires (shelf.drop (shelf.length + 1 - capacity)), left) ∧
      Filed (shelf.drop (shelf.length + 1 - capacity)) left := by
  induction shelf generalizing values with
  | nil => exact ⟨values, by simp [Shelf.fires, OutcomeStore.makeRoom], by simpa using filed⟩
  | cons oldest later ih =>
      obtain ⟨fresh, unique⟩ := List.nodup_cons.1 filed.unique
      rw [Shelf.fires, List.map_cons, OutcomeStore.makeRoom, List.length_map, List.length_cons]
      by_cases fits : later.length + 1 < capacity
      · rw [if_pos fits, Nat.sub_eq_zero_of_le fits]
        exact ⟨values, rfl, filed⟩
      · have without : (oldest :: later).filter (·.1 != oldest.1) = later := by
          rw [List.filter_cons_of_neg (by simp), filter_of_not_mem fresh]
        have held : (values.lookup oldest.1).isSome :=
          (filed.isSome_iff _).2 List.mem_cons_self
        obtain ⟨left, made, kept⟩ := ih (without ▸ filed.erase oldest.1)
        rw [Shelf.fires] at made
        have excess : later.length + 1 + 1 - capacity = later.length + 1 - capacity + 1 := by omega
        rw [if_neg fits, made, excess]
        exact ⟨left, by simp [held, Shelf.fires], kept⟩

end Filed

/-! The store in step with the shelf. -/

/-- The store is the shelf, taken apart. -/
structure Shows (shelf : Shelf) (store : OutcomeStore) : Prop where
  order : store.order = shelf.fires
  filed : Filed shelf store.values
  nonempty : ∀ kept ∈ shelf, kept.2 ≠ []
  fits : shelf.length ≤ store.capacity
  roomy : 1 ≤ store.capacity

namespace Shows

theorem withCapacity (capacity : Nat) : Shows [] (withCapacity capacity) where
  order := rfl
  filed := ⟨List.nodup_nil, List.Perm.refl _, fun _ => rfl⟩
  nonempty := fun _ member => absurd member List.not_mem_nil
  fits := Nat.zero_le _
  roomy := Nat.le_max_right _ _

theorem record (shows : Shows shelf store) (fire : FireId) (value : String) :
    (store.record fire value).1 = (shelf.record store.capacity fire value).1 ∧
      Shows (shelf.record store.capacity fire value).2 (store.record fire value).2 := by
  have held := shows.filed.isSome_iff fire
  rw [Shelf.record]
  by_cases known : fire ∈ shelf.fires
  · rw [if_pos known, record_of_held (held.2 known), ← push_of_mem shows.filed.unique known]
    refine ⟨rfl, ?_, shows.filed.push fire value, fun kept member => ?_, ?_, shows.roomy⟩
    · rw [fires_push, if_pos known]
      exact shows.order
    · rw [push_of_mem shows.filed.unique known] at member
      obtain ⟨old, held, rfl⟩ := List.mem_map.1 member
      split
      next => simp
      next => exact shows.nonempty old held
    · rw [push_of_mem shows.filed.unique known, List.length_map]
      exact shows.fits
  · have new : store.get? fire = none := Option.not_isSome_iff_eq_none.1 (held.not.2 known)
    obtain ⟨left, made, filed⟩ := shows.filed.makeRoom store.capacity
    have still : fire ∉ Shelf.fires (shelf.drop (shelf.length + 1 - store.capacity)) :=
      fun member => known (((List.drop_sublist _ _).map _).subset member)
    rw [if_neg known, record_of_new new, shows.order, made]
    dsimp only
    rw [← push_of_not_mem still]
    refine ⟨rfl, ?_, filed.push fire value, fun kept member => ?_, ?_, shows.roomy⟩
    · rw [fires_push, if_neg still]
    · rw [push_of_not_mem still] at member
      rcases List.mem_append.1 member with old | last
      · exact shows.nonempty kept (List.mem_of_mem_drop old)
      · rw [List.mem_singleton.1 last]
        exact List.cons_ne_nil _ _
    · have roomy := shows.roomy
      rw [push_of_not_mem still, List.length_append, List.length_drop, List.length_singleton]
      dsimp only
      omega

theorem take (shows : Shows shelf store) (fire : FireId) :
    Shows (shelf.filter (·.1 != fire)) (store.take fire).2 := by
  have held : (store.get? fire).isSome ↔ fire ∈ shelf.fires := shows.filed.isSome_iff fire
  rw [OutcomeStore.take]
  by_cases known : fire ∈ shelf.fires
  · rw [if_pos (held.2 known)]
    refine ⟨?_, shows.filed.erase fire, fun kept member => ?_, ?_, shows.roomy⟩
    · rw [fires_filter, ← shows.order]
    · exact shows.nonempty kept (List.mem_of_mem_filter member)
    · exact Nat.le_trans (List.length_filter_le _ _) shows.fits
  · rw [if_neg (held.not.2 known)]
    rwa [filter_of_not_mem known]

/-- The store answers like the shelf, and is the shelf again. -/
theorem reply (shows : Shows shelf store) (call : StoreCall) :
    (store.reply call).1 = (shelf.reply store.capacity call).1 ∧
      Shows (shelf.reply store.capacity call).2 (store.reply call).2 := by
  have found (fire : FireId) : store.get? fire = shelf.lookup fire := shows.filed.found fire
  cases call with
  | record fire value =>
      obtain ⟨dropped, still⟩ := shows.record fire value
      exact ⟨congrArg StoreReply.dropped dropped, still⟩
  | get fire => exact ⟨congrArg StoreReply.values (found fire), shows⟩
  | first fire =>
      refine ⟨congrArg StoreReply.value ?_, shows⟩
      rw [first?, found]
  | take fire => exact ⟨congrArg StoreReply.values (found fire), shows.take fire⟩

theorem size (shows : Shows shelf store) : store.size = shelf.length := by
  simpa [Shelf.fires, OutcomeStore.size] using shows.filed.owners.length_eq

end Shows

theorem capacity_reply (store : OutcomeStore) (call : StoreCall) :
    (store.reply call).2.capacity = store.capacity := by
  cases call with
  | take fire =>
      show (store.take fire).2.capacity = store.capacity
      unfold take
      dsimp only
      split
      next => rfl
      next => rfl
  | record | get | first => rfl

theorem Shows.replies (shows : Shows shelf store) (calls : List StoreCall) :
    (store.replies calls).1 = (shelf.replies store.capacity calls).1 ∧
      Shows (shelf.replies store.capacity calls).2 (store.replies calls).2 ∧
      (store.replies calls).2.capacity = store.capacity := by
  induction calls generalizing store shelf with
  | nil => exact ⟨rfl, shows, rfl⟩
  | cons call rest ih =>
      obtain ⟨same, still⟩ := shows.reply call
      obtain ⟨replies, shown, capacity⟩ := ih still
      rw [capacity_reply] at replies shown capacity
      exact ⟨congrArg₂ List.cons same replies, shown, capacity⟩

/-- After whatever calls, the store has answered like a shelf with room for `max capacity 1` firings
and holds what the shelf holds. Its order has each firing with values once and no other, no firing
is kept without a value, and there are never more firings than there is room for. -/
theorem replies_shelf (capacity : Nat) (calls : List StoreCall) :
    let store := ((withCapacity capacity).replies calls).2
    let shelf := (Shelf.replies (max capacity 1) calls []).2
    ((withCapacity capacity).replies calls).1 = (Shelf.replies (max capacity 1) calls []).1 ∧
    store.order = shelf.fires ∧
    (∀ fire, store.get? fire = shelf.lookup fire) ∧
    shelf.length ≤ max capacity 1 ∧
    store.order.Nodup ∧
    (∀ fire, fire ∈ store.order ↔ (store.get? fire).isSome) ∧
    (∀ fire values, store.get? fire = some values → values ≠ []) ∧
    store.size = shelf.length ∧
    store.capacity = max capacity 1 ∧
    store.size ≤ store.capacity := by
  intro store shelf
  obtain ⟨same, shows, room⟩ : _ ∧ Shows shelf store ∧ store.capacity = max capacity 1 :=
    (Shows.withCapacity capacity).replies calls
  refine ⟨same, shows.order, shows.filed.found, room ▸ shows.fits, ?_, fun fire => ?_,
    fun fire values found => ?_, shows.size, room, shows.size ▸ shows.fits⟩
  · rw [shows.order]
    exact shows.filed.unique
  · rw [shows.order]
    exact (shows.filed.isSome_iff fire).symm
  · obtain ⟨before, after, split, _⟩ :=
      List.lookup_eq_some_iff.1 ((shows.filed.found fire).symm.trans found)
    exact shows.nonempty (fire, values) (by simp [split])

example :
    ((withCapacity 2).replies [.record ⟨0⟩ "a", .record ⟨1⟩ "b", .record ⟨0⟩ "a2", .record ⟨2⟩ "c",
      .record ⟨0⟩ "again", .take ⟨2⟩, .record ⟨2⟩ "late", .get ⟨0⟩]).1 =
      [.dropped [], .dropped [], .dropped [], .dropped [⟨0⟩], .dropped [⟨1⟩],
        .values (some ["c"]), .dropped [], .values (some ["again"])] := by
  decide

end OutcomeStore

end TagScript
