import TagScript.Script.Entry

/-! Determinations, kept by the firing that made them until somebody asks. Only so many firings are
kept; the oldest are dropped first. -/

namespace TagScript

/-- The values of each firing, and apart from them the order in which the firings came. -/
structure OutcomeStore where
  values : List (FireId × List String)
  /-- The firings in the order of their first value. -/
  order : List FireId
  capacity : Nat

namespace OutcomeStore

def defaultCapacity : Nat := 1024

def withCapacity (capacity : Nat) : OutcomeStore := ⟨[], [], max capacity 1⟩

instance : Inhabited OutcomeStore := ⟨withCapacity defaultCapacity⟩

def makeRoom (capacity : Nat) : List FireId → List (FireId × List String) →
    List FireId × List FireId × List (FireId × List String)
  | [], values => ([], [], values)
  | oldest :: later, values =>
    if later.length + 1 < capacity then ([], oldest :: later, values)
    else
      let (dropped, order, kept) := makeRoom capacity later (values.filter (·.1 != oldest))
      (if (values.lookup oldest).isSome then oldest :: dropped else dropped, order, kept)

def push (fire : FireId) (value : String) :
    List (FireId × List String) → List (FireId × List String)
  | [] => [(fire, [value])]
  | (other, held) :: rest =>
    if other = fire then (fire, held ++ [value]) :: rest else (other, held) :: push fire value rest

def get? (fire : FireId) (store : OutcomeStore) : Option (List String) :=
  store.values.lookup fire

def first? (fire : FireId) (store : OutcomeStore) : Option String :=
  (store.get? fire).bind (·.head?)

/-- Files a value, and tells which firings were dropped for it. -/
def record (fire : FireId) (value : String) (store : OutcomeStore) : List FireId × OutcomeStore :=
  let (dropped, order, values) :=
    if (store.get? fire).isSome then ([], store.order, store.values)
    else
      let (dropped, order, values) := makeRoom store.capacity store.order store.values
      (dropped, order ++ [fire], values)
  (dropped, { store with order, values := push fire value values })

def take (fire : FireId) (store : OutcomeStore) : Option (List String) × OutcomeStore :=
  (store.get? fire,
    if (store.get? fire).isSome then
      { store with
        values := store.values.filter (·.1 != fire)
        order := store.order.filter (· != fire) }
    else store)

def size (store : OutcomeStore) : Nat := store.values.length

end OutcomeStore

end TagScript
