import Std.Data.HashMap

/-! Bounded caches of readings. A cache never forgets, and when it is full it reads new texts afresh
each time. -/

namespace TagScript.Tag

/-- A reading with the number of the act that made it; two uses share one reading exactly when the
numbers agree. -/
structure Reading (α : Type) where
  value : α
  serial : Nat
  deriving DecidableEq

/-- Readings by their source text, and how many readings were ever made. -/
structure Cache (α : Type) where
  readings : Std.HashMap String (Reading α)
  made : Nat

namespace Cache

variable {α : Type}

def capacity : Nat := 16384

def empty : Cache α := ⟨∅, 0⟩

instance : Inhabited (Cache α) := ⟨empty⟩

def size (cache : Cache α) : Nat := cache.readings.size

/-- The reading of a text: the one held, or a new one, which is kept if there is room. -/
def lookup (read : String → α) (text : String) (cache : Cache α) : Reading α × Cache α :=
  match cache.readings[text]? with
  | some reading => (reading, cache)
  | none =>
    let reading : Reading α := ⟨read text, cache.made⟩
    let readings :=
      if cache.readings.size < capacity then cache.readings.insert text reading
      else cache.readings
    (reading, ⟨readings, cache.made + 1⟩)

def file (text : String) (reading : Reading α) (cache : Cache α) : Reading α × Cache α :=
  if capacity ≤ cache.readings.size then (reading, cache)
  else
    match cache.readings[text]? with
    | some held => (held, cache)
    | none => (reading, { cache with readings := cache.readings.insert text reading })

/-- The reading of a text, looked for in one turn and filed in another. Nobody has to wait while the
text is read, and others may use the cache meanwhile. -/
def lookupInTurns (read : String → α) (text : String) (cache : Cache α) : Reading α × Cache α :=
  match cache.readings[text]? with
  | some reading => (reading, cache)
  | none => file text ⟨read text, cache.made⟩ { cache with made := cache.made + 1 }

theorem lookupInTurns_eq (read : String → α) (text : String) (cache : Cache α) :
    cache.lookupInTurns read text = cache.lookup read text := by
  rw [lookupInTurns, lookup]
  split
  · rfl
  · rename_i absent
    rw [file]
    split
    · rename_i full
      simp only [if_neg (Nat.not_lt.2 full)]
    · rename_i room
      simp only [absent, if_pos (Nat.lt_of_not_le room)]

def holds (cache : Cache α) (text : String) : Bool := cache.readings.contains text

end Cache

end TagScript.Tag
