import TagScript.Command.Basic
import TagScript.Proofs.Table
import Mathlib.Data.List.Basic

/-! Commands that are registered one after the other. A call that fails changes nothing, so a table
answers exactly for the names of the commands that it accepted, and no two of those share a name. -/

namespace TagScript.CommandTable

variable {η : Type} {command : Command η} {table : CommandTable η} {accepted : List (Command η)}

def enrollAll (table : CommandTable η) : List (Command η) → CommandTable η
  | [] => table
  | command :: rest => enrollAll (table.enroll command).2 rest

/-- The commands of the calls that succeeded. -/
def enrolled (table : CommandTable η) : List (Command η) → List (Command η)
  | [] => []
  | command :: rest =>
    match table.enroll command with
    | (.ok (), next) => command :: enrolled next rest
    | (.error _, next) => enrolled next rest

def Apart (command other : Command η) : Prop := (namesOf command).Disjoint (namesOf other)

def TakenBy (accepted : List (Command η)) (name : String) : Prop :=
  ∃ command ∈ accepted, name ∈ namesOf command

/-- The table answers for the names of the commands, and each of its names belongs to one of them. -/
structure Serves (accepted : List (Command η)) (table : CommandTable η) : Prop where
  apart : accepted.Pairwise Apart
  answers (name : String) (command : Command η) :
    table.commands.get? name = some command ↔ command ∈ accepted ∧ name ∈ namesOf command

theorem enroll_eq_error {taken : String}
    (failed : (table.enroll command).1 = .error (.duplicateCommand taken)) :
    (table.enroll command).2 = table ∧
      (namesOf command).find? table.commands.holds = some taken := by
  rw [enroll] at failed ⊢
  split at failed
  next name found =>
    rw [found]
    obtain rfl := CommandTableError.duplicateCommand.inj (Except.error.inj failed)
    exact ⟨rfl, rfl⟩
  next => cases failed

theorem enroll_of_taken {taken : String}
    (found : (namesOf command).find? table.commands.holds = some taken) :
    table.enroll command = (.error (.duplicateCommand taken), table) := by
  rw [enroll, found]

theorem enroll_of_free (free : ∀ name ∈ namesOf command, table.commands.holds name = false) :
    (table.enroll command).1 = .ok () ∧
      ∀ name, (table.enroll command).2.commands.get? name =
        if name ∈ namesOf command then some command else table.commands.get? name := by
  have none : (namesOf command).find? table.commands.holds = none :=
    List.find?_eq_none.2 fun name member => by simp [free name member]
  rw [enroll, none]
  exact ⟨rfl, Table.get?_foldl_set _ _ _⟩

namespace Serves

theorem empty : Serves ([] : List (Command η)) empty where
  apart := .nil
  answers name command := by simp [CommandTable.empty, Table.get?]

theorem holds_iff (serves : table.Serves accepted) {name : String} :
    table.commands.holds name ↔ TakenBy accepted name := by
  rw [Table.holds, Option.isSome_iff_exists]
  exact exists_congr fun command => serves.answers name command

theorem enroll_error_iff (serves : table.Serves accepted) {taken : String} :
    (table.enroll command).1 = .error (.duplicateCommand taken) ↔
      ∃ before after, namesOf command = before ++ taken :: after ∧ TakenBy accepted taken ∧
        ∀ name ∈ before, ¬ TakenBy accepted name := by
  have first : (namesOf command).find? table.commands.holds = some taken ↔
      ∃ before after, namesOf command = before ++ taken :: after ∧ TakenBy accepted taken ∧
        ∀ name ∈ before, ¬ TakenBy accepted name := by
    simp only [List.find?_eq_some_iff_append, serves.holds_iff, Bool.not_eq_true',
      ← Bool.not_eq_true]
    tauto
  rw [← first]
  exact ⟨fun failed => (enroll_eq_error failed).2, fun found => by rw [enroll_of_taken found]⟩

theorem enroll_ok_iff (serves : table.Serves accepted) :
    (table.enroll command).1 = .ok () ↔ ∀ name ∈ namesOf command, ¬ TakenBy accepted name := by
  simp only [← serves.holds_iff, Bool.not_eq_true]
  refine ⟨fun succeeded name member => ?_, fun free => (enroll_of_free free).1⟩
  cases found : (namesOf command).find? table.commands.holds with
  | none => simpa using List.find?_eq_none.1 found name member
  | some taken => simp [enroll_of_taken found] at succeeded

theorem enroll (serves : table.Serves accepted) (succeeded : (table.enroll command).1 = .ok ()) :
    (table.enroll command).2.Serves (accepted ++ [command]) := by
  have free := serves.enroll_ok_iff.1 succeeded
  have found := (enroll_of_free fun name member =>
    Bool.eq_false_iff.2 (serves.holds_iff.not.2 (free name member))).2
  refine ⟨List.pairwise_append.2 ⟨serves.apart, List.pairwise_singleton _ _, ?_⟩, ?_⟩
  · rintro other member _ last name mine
    obtain rfl := List.mem_singleton.1 last
    exact fun its => free name its ⟨other, member, mine⟩
  · intro name other
    rw [found, List.mem_append, List.mem_singleton]
    split
    next its =>
      constructor
      · rintro same
        obtain rfl := Option.some.inj same
        exact ⟨.inr rfl, its⟩
      · rintro ⟨member | rfl, mine⟩
        · exact absurd ⟨other, member, mine⟩ (free name its)
        · rfl
    next strange =>
      rw [serves.answers]
      constructor
      · rintro ⟨member, mine⟩
        exact ⟨.inl member, mine⟩
      · rintro ⟨member | rfl, mine⟩
        · exact ⟨member, mine⟩
        · exact absurd mine strange

theorem enrollAll (serves : table.Serves accepted) (calls : List (Command η)) :
    (table.enrollAll calls).Serves (accepted ++ table.enrolled calls) := by
  induction calls generalizing table accepted with
  | nil => simpa [CommandTable.enrollAll, enrolled] using serves
  | cons command rest ih =>
      rw [CommandTable.enrollAll, enrolled]
      split
      next next called =>
        have later := ih (serves.enroll (by rw [called]))
        rw [called] at later ⊢
        simpa using later
      next error next called =>
        obtain ⟨taken⟩ := error
        have failed : (table.enroll command).1 = .error (.duplicateCommand taken) := by rw [called]
        obtain rfl : next = table := by simpa [called] using (enroll_eq_error failed).1
        rw [called]
        exact ih serves

end Serves

/-- Registration is all or nothing. After whatever calls, a call fails exactly if one of its names
belongs to a command that was accepted before, it names the first of these, and it leaves the table
as it was. A call that succeeds adds the answers for the names of its command and changes no other.
What the table finds under a name is the one accepted command that has the name. -/
theorem enroll_atomic (calls : List (Command η)) (command : Command η) :
    let table := empty.enrollAll calls
    let accepted := empty.enrolled calls
    let called := table.enroll command
    (∀ taken, called.1 = .error (.duplicateCommand taken) ↔
      ∃ before after, namesOf command = before ++ taken :: after ∧ TakenBy accepted taken ∧
        ∀ name ∈ before, ¬ TakenBy accepted name) ∧
    (called.1 = .ok () ↔ ∀ name ∈ namesOf command, ¬ TakenBy accepted name) ∧
    (called.1 ≠ .ok () → called.2 = table) ∧
    (called.1 = .ok () → ∀ name, called.2.find? name =
      if Text.lower name ∈ namesOf command then some command else table.find? name) ∧
    (∀ name found, table.find? name = some found ↔
      found ∈ accepted ∧ Text.lower name ∈ namesOf found) ∧
    accepted.Pairwise Apart := by
  intro table accepted called
  have serves : table.Serves accepted := Serves.empty.enrollAll calls
  refine ⟨fun taken => serves.enroll_error_iff, serves.enroll_ok_iff, fun failed => ?_,
    fun succeeded name => ?_, fun name found => serves.answers (Text.lower name) found, serves.apart⟩
  · cases outcome : called.1 with
    | ok => exact absurd outcome failed
    | error error =>
        obtain ⟨taken⟩ := error
        exact (enroll_eq_error outcome).1
  · have free := serves.enroll_ok_iff.1 succeeded
    exact (enroll_of_free fun name member =>
      Bool.eq_false_iff.2 (serves.holds_iff.not.2 (free name member))).2 (Text.lower name)

example (command : Command η) : (empty.enroll command).1 = .ok () :=
  (enroll_of_free fun _ _ => rfl).1

theorem register_eq_ok_iff {next : CommandTable η} :
    table.register command = .ok next ↔
      (table.enroll command).1 = .ok () ∧ (table.enroll command).2 = next := by
  rw [register]
  cases table.enroll command with
  | mk outcome left => cases outcome <;> simp [Except.map]

theorem of_foldlM_register_cons {command : Command η} {rest : List (Command η)}
    {built : CommandTable η}
    (done : (command :: rest).foldlM (fun table command => table.register command) table = .ok built) :
    ∃ next, table.register command = .ok next ∧
      rest.foldlM (fun table command => table.register command) next = .ok built := by
  rw [List.foldlM_cons] at done
  cases registered : table.register command with
  | error error =>
      rw [registered] at done
      cases done
  | ok next =>
      rw [registered] at done
      exact ⟨next, rfl, done⟩

end TagScript.CommandTable
