import TagScript.Proofs.Tag.Transparency

/-! What those who use a cache may rely on. Whatever others read and file meanwhile, a call gives what
reading gives; what is held stays held, and what found no room is read afresh each time. So filling
does not depend on what the caches hold. -/

namespace TagScript.Tag

open Relation (ReflTransGen)

namespace Cache

variable {α : Type} {read : String → α} {cache later : Cache α} {text : String}

/-- One turn of somebody who uses the cache: having found nothing he reads, or he files what he has
read. Others may take their turns between the two. -/
inductive Turn (read : String → α) (cache : Cache α) : Cache α → Prop
  | read : Turn read cache { cache with made := cache.made + 1 }
  | file (text : String) (serial : Nat) : Turn read cache (cache.file text ⟨read text, serial⟩).2

abbrev Used (read : String → α) : Cache α → Cache α → Prop := ReflTransGen (Turn read)

/-- A call gives what reading gives, and a cache that was used in whatever way never holds too much and
never forgets. A text that is held, or for which there is room, is answered with one reading from
then on, and nothing is made for it any more. A text for which there is no room is never held, and
every call makes a reading of its own. -/
structure Transparent (read : String → α) (call : String → Cache α → Reading α × Cache α) :
    Prop where
  used : ∀ text cache, Used read cache (call text cache).2
  value : ∀ {cache}, Used read empty cache → ∀ text, (call text cache).1.value = read text
  bounded : ∀ {cache : Cache α}, Used read empty cache → cache.size ≤ capacity
  grows : ∀ {cache later : Cache α}, Used read cache later → cache.size ≤ later.size
  kept : ∀ {cache later text}, cache.holds text = true ∨ cache.size < capacity →
    Used read (call text cache).2 later → call text later = ((call text cache).1, later)
  refused : ∀ {cache later text}, cache.holds text = false → capacity ≤ cache.size →
    Used read cache later → later.holds text = false ∧
      call text later = (⟨read text, later.made⟩, { later with made := later.made + 1 })

/-! Turns. -/

theorem file_cases (text : String) (reading : Reading α) (cache : Cache α) :
    (cache.file text reading).2 = cache ∨
      cache.readings[text]? = none ∧ cache.size < capacity ∧ (cache.file text reading).2 =
        { cache with readings := cache.readings.insert text reading } := by
  unfold file
  split
  next => exact .inl rfl
  next room =>
    split
    next => exact .inl rfl
    next absent => exact .inr ⟨absent, Nat.lt_of_not_le room, rfl⟩

theorem size_insert {reading : Reading α} (absent : cache.readings[text]? = none) :
    (cache.readings.insert text reading).size = cache.size + 1 := by
  have new : text ∉ cache.readings := by simpa using absent
  rw [Std.HashMap.size_insert, if_neg new, size]

structure Grows (read : String → α) (cache later : Cache α) : Prop where
  held : ∀ (text : String) reading, cache.readings[text]? = some reading →
    later.readings[text]? = some reading
  size : cache.size ≤ later.size
  bounded : cache.size ≤ capacity → later.size ≤ capacity
  full : capacity ≤ cache.size → later.readings = cache.readings
  faithful : cache.Faithful read → later.Faithful read

namespace Grows

theorem of_same (same : later.readings = cache.readings) : Grows read cache later where
  held := fun _ _ held => same ▸ held
  size := by rw [Cache.size, Cache.size, same]
  bounded := fun bounded => by rwa [Cache.size, same]
  full := fun _ => same
  faithful := fun faithful text reading held => faithful text reading (same ▸ held)

theorem trans {last : Cache α} (first : Grows read cache later) (second : Grows read later last) :
    Grows read cache last where
  held := fun text reading held => second.held text reading (first.held text reading held)
  size := Nat.le_trans first.size second.size
  bounded := fun bounded => second.bounded (first.bounded bounded)
  full := fun full => (second.full (Nat.le_trans full first.size)).trans (first.full full)
  faithful := fun faithful => second.faithful (first.faithful faithful)

theorem insert {serial : Nat} (absent : cache.readings[text]? = none)
    (room : cache.size < capacity) :
    Grows read cache
      { cache with readings := cache.readings.insert text ⟨read text, serial⟩ } where
  held := by
    intro other reading held
    have apart : ¬ text = other := by
      rintro rfl
      simp [absent] at held
    simpa [Std.HashMap.getElem?_insert, apart] using held
  size := by
    show cache.size ≤ (cache.readings.insert text _).size
    rw [size_insert absent]
    exact Nat.le_succ _
  bounded := fun _ => by
    show (cache.readings.insert text _).size ≤ capacity
    rw [size_insert absent]
    exact room
  full := fun full => absurd room (Nat.not_lt.2 full)
  faithful := by
    intro faithful other reading held
    rw [Std.HashMap.getElem?_insert] at held
    split at held
    next same => rw [← Option.some.inj held, ← beq_iff_eq.1 same]
    next => exact faithful other reading held

end Grows

theorem Turn.grows (turn : Turn read cache later) : Grows read cache later := by
  cases turn with
  | read => exact .of_same rfl
  | file text serial =>
      rcases cache.file_cases text ⟨read text, serial⟩ with same | ⟨absent, room, filed⟩
      · exact .of_same (by rw [same])
      · exact filed ▸ .insert absent room

theorem grows_of_used (used : Used read cache later) : Grows read cache later := by
  induction used with
  | refl => exact .of_same rfl
  | tail _ turn ih => exact ih.trans turn.grows

/-! Calls. -/

theorem holds_iff : cache.holds text = true ↔ ∃ reading, cache.readings[text]? = some reading := by
  rw [holds, Std.HashMap.contains_eq_isSome_getElem?, Option.isSome_iff_exists]

theorem holds_eq_false_iff : cache.holds text = false ↔ cache.readings[text]? = none := by
  rw [← Bool.not_eq_true, holds_iff, Option.eq_none_iff_forall_ne_some, not_exists]

theorem lookup_of_held {reading : Reading α} (held : cache.readings[text]? = some reading) :
    cache.lookup read text = (reading, cache) := by
  rw [lookup, held]

theorem lookup_of_room (absent : cache.readings[text]? = none) (room : cache.size < capacity) :
    cache.lookup read text = (⟨read text, cache.made⟩,
      ⟨cache.readings.insert text ⟨read text, cache.made⟩, cache.made + 1⟩) := by
  rw [lookup, absent]
  exact Prod.ext rfl (congrArg (Cache.mk · (cache.made + 1)) (if_pos room))

theorem lookup_of_full (absent : cache.readings[text]? = none) (full : capacity ≤ cache.size) :
    cache.lookup read text =
      (⟨read text, cache.made⟩, { cache with made := cache.made + 1 }) := by
  rw [lookup, absent]
  exact Prod.ext rfl (congrArg (Cache.mk · (cache.made + 1)) (if_neg (Nat.not_lt.2 full)))

theorem used_lookup (text : String) (cache : Cache α) :
    Used read cache (cache.lookup read text).2 := by
  rw [← lookupInTurns_eq, lookupInTurns]
  split
  next => exact .refl
  next => exact .tail (.single .read) (.file text cache.made)

theorem held_lookup (kept : cache.holds text = true ∨ cache.size < capacity) :
    (cache.lookup read text).2.readings[text]? = some (cache.lookup read text).1 := by
  cases found : cache.readings[text]? with
  | some reading =>
      rw [lookup_of_held found]
      exact found
  | none =>
      have room : cache.size < capacity := kept.resolve_left fun held => by
        rw [holds_eq_false_iff.2 found] at held
        cases held
      rw [lookup_of_room found room]
      simp

theorem transparent_lookup (read : String → α) : Transparent read (Cache.lookup read) where
  used := used_lookup
  value := fun used text =>
    ((grows_of_used used).faithful (.empty read)).lookup_value text
  bounded := fun used => (grows_of_used used).bounded (Nat.zero_le _)
  grows := fun used => (grows_of_used used).size
  kept := fun kept used =>
    lookup_of_held ((grows_of_used used).held _ _ (held_lookup kept))
  refused := by
    intro cache later text absent full used
    have grows := grows_of_used used
    have still : later.readings[text]? = none := by
      rw [grows.full full]
      exact holds_eq_false_iff.1 absent
    exact ⟨holds_eq_false_iff.2 still, lookup_of_full still (Nat.le_trans full grows.size)⟩

theorem file_in_turn (used : Used read empty cache) (text : String) (serial : Nat) :
    let filed := cache.file text ⟨read text, serial⟩
    filed.1.value = read text ∧ (cache.size < capacity → ∀ later, Used read filed.2 later →
      later.lookupInTurns read text = (filed.1, later)) := by
  intro filed
  have faithful := (grows_of_used used).faithful (.empty read)
  have answered (held : filed.2.readings[text]? = some filed.1) (later : Cache α)
      (more : Used read filed.2 later) : later.lookupInTurns read text = (filed.1, later) :=
    (later.lookupInTurns_eq read text).trans (lookup_of_held ((grows_of_used more).held _ _ held))
  by_cases room : cache.size < capacity
  · have notFull : ¬ capacity ≤ cache.readings.size := Nat.not_le.2 room
    cases found : cache.readings[text]? with
    | some reading =>
        have same : filed = (reading, cache) := by simp only [filed, file, if_neg notFull, found]
        rw [same] at answered ⊢
        exact ⟨faithful text reading found, fun _ => answered found⟩
    | none =>
        have same : filed = (⟨read text, serial⟩,
            { cache with readings := cache.readings.insert text ⟨read text, serial⟩ }) := by
          simp only [filed, file, if_neg notFull, found]
        rw [same] at answered ⊢
        exact ⟨rfl, fun _ => answered Std.HashMap.getElem?_insert_self⟩
  · have same : filed = (⟨read text, serial⟩, cache) := if_pos (Nat.le_of_not_lt room)
    exact ⟨by rw [same], fun fits => absurd fits room⟩

theorem transparent_lookupInTurns (read : String → α) :
    Transparent read (Cache.lookupInTurns read) := by
  have same : Cache.lookupInTurns read = Cache.lookup read :=
    funext fun text => funext fun cache => cache.lookupInTurns_eq read text
  exact same ▸ transparent_lookup read

end Cache

/-! Fillings. -/

variable {σ τ α β : Type}

open EvalM (Parallel)

inductive Inquiry where
  | resolve (resolver : String) (lookup : Lookup)
  | apply (value : String) (lookup : Lookup) (position : Nat)
  | report (context : Context) (message : String)

def Resolver.recorded (record : Inquiry → σ → σ) (resolver : Resolver σ) : Resolver σ :=
  { resolver with
    resolve := fun lookup => do
      OptionT.lift (Acting.modify (record (.resolve resolver.name lookup)))
      resolver.resolve lookup }

def Attribute.recorded (record : Inquiry → σ → σ) (handler : Attribute σ) : Attribute σ where
  apply := fun value lookup position => do
    OptionT.lift (Acting.modify (record (.apply value lookup position)))
    handler.apply value lookup position

def Vocabulary.recorded (record : Inquiry → σ → σ) (vocabulary : Vocabulary σ) : Vocabulary σ :=
  { vocabulary with
    resolvers := vocabulary.resolvers.map (Resolver.recorded record)
    attributes := vocabulary.attributes.map (Attribute.recorded record)
    report := fun context message world =>
      vocabulary.report context message (record (.report context message) world) }

theorem perform_eq_of_call {vocabulary other : Vocabulary σ} (same : vocabulary.call = other.call)
    (fill : String → EvalM σ String) (lookup : Lookup) (act : Act σ β) (memo : Memo) :
    perform vocabulary fill lookup act memo = perform other fill lookup act memo := by
  induction act generalizing memo with
  | done result world => rfl
  | bracket position world resume ih => simp only [perform, ih]
  | call procedure world resume ih => simp only [perform, ih, same]
  | cancel world resume ih => simp only [perform, ih]
  | isCancelled world resume ih => simp only [perform, ih]

theorem ask_eq_of_call {vocabulary other : Vocabulary σ} (same : vocabulary.call = other.call)
    (fill : String → EvalM σ String) (lookup : Lookup) (act : Acting σ β) (memo : Memo) :
    ask vocabulary fill lookup act memo = ask other fill lookup act memo := by
  simp only [ask, perform_eq_of_call same]

theorem ask_recorded_parallel {related : σ → σ → Prop} {vocabulary recorded : Vocabulary σ}
    {call other : Procedure → EvalM σ CallResult} {fill fill' : String → EvalM σ String}
    {lookup : Lookup} {note : σ → σ} {answering : Answering σ Resolved} {memo : Memo}
    (keeps : ∀ left right, related left right → related (note left) (note right))
    (asks : Parallel related (ask (vocabulary.calling call) fill lookup answering.run memo)
      (ask (vocabulary.calling other) fill' lookup answering.run memo) related) :
    Parallel related
      (ask (recorded.calling call) fill lookup
        (OptionT.lift (Acting.modify note) >>= fun _ => answering).run memo)
      (ask (recorded.calling other) fill' lookup
        (OptionT.lift (Acting.modify note) >>= fun _ => answering).run memo) related := by
  have split : (OptionT.lift (Acting.modify note) >>= fun _ => answering).run =
      Acting.modify note >>= fun _ => answering.run := rfl
  have same (call : Procedure → EvalM σ CallResult) :
      (recorded.calling call).call = (vocabulary.calling call).call := rfl
  simp only [split, ask_bind, ask_modify, bind_assoc, pure_bind, ask_eq_of_call (same _)]
  exact .bind (.modifyWorld keeps) fun _ => asks

theorem Vocabulary.Matching.recorded {related : σ → σ → Prop} {vocabulary : Vocabulary σ}
    {call other : Procedure → EvalM σ CallResult} {context : Context}
    (matching : vocabulary.Matching related call other context) {record : Inquiry → σ → σ}
    (keeps : ∀ inquiry left right, related left right →
      related (record inquiry left) (record inquiry right))
    {report : Context → String → σ → σ}
    (reports : ∀ message left right, related left right →
      related (report context message left) (report context message right)) :
    Matching related
      { vocabulary with
        resolvers := vocabulary.resolvers.map (Resolver.recorded record)
        attributes := vocabulary.attributes.map (Attribute.recorded record)
        report } call other context where
  remark := matching.remark
  report := reports
  resolve := by
    intro resolver known fill fill' fills lookup here memo
    obtain ⟨plain, member, rfl⟩ := List.mem_map.1 known
    exact ask_recorded_parallel (keeps _) (matching.resolve plain member fill fill' fills lookup here memo)
  apply := by
    intro handler known fill fill' fills value lookup here position memo
    obtain ⟨plain, member, rfl⟩ := List.mem_map.1 known
    exact ask_recorded_parallel (keeps _)
      (matching.apply plain member fill fill' fills value lookup here position memo)

structure Evaluation.Cached (state : Evaluation σ) : Prop where
  pieces : Cache.Used Tag.pieces .empty state.pieces
  chains : Cache.Used Chain.parse .empty state.chains

theorem Evaluation.Cached.faithful {state : Evaluation σ} (cached : state.Cached) :
    state.Faithful where
  pieces := (Cache.grows_of_used cached.pieces).faithful (.empty _)
  chains := (Cache.grows_of_used cached.chains).faithful (.empty _)

/-- Whatever the caches hold, the act comes to the same, as far as can be seen. -/
def EvalM.CacheBlind (seen : σ → τ) (act : EvalM σ α) : Prop :=
  ∀ left right : Evaluation σ, left.Cached → right.Cached →
    left.token = right.token → left.bound = right.bound → seen left.world = seen right.world →
    SameOutcome seen (act.run left) (act.run right)

theorem EvalM.Agree.cacheBlind {seen : σ → τ} {act : EvalM σ α} (agree : Agree seen act act) :
    CacheBlind seen act :=
  fun left right here there token bound world =>
    agree left right ⟨here.faithful, there.faithful, token, bound, world⟩

/-- What is put on record depends on nothing but what is seen. -/
def InSight (seen : σ → τ) (record : Inquiry → σ → σ) : Prop :=
  ∀ inquiry left right, seen left = seen right →
    seen (record inquiry left) = seen (record inquiry right)

theorem evaluate_cacheBlind {vocabulary : Vocabulary σ} {seen : σ → τ}
    (sees : vocabulary.SeesOnly seen) {record : Inquiry → σ → σ} (inSight : InSight seen record)
    (context : Context) (text : String) :
    EvalM.CacheBlind seen (evaluate (vocabulary.recorded record) context text) := by
  have matching : (vocabulary.recorded record).Matching (InvImage Eq seen) vocabulary.call
      vocabulary.call context :=
    (sees.matching context).recorded inSight fun message left right same =>
      sees.report context message _ _ (inSight _ left right same)
  exact (evaluate_parallel matching text).agree.cacheBlind

end TagScript.Tag
