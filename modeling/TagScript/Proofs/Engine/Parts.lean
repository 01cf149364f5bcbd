import TagScript.Proofs.Command.Registration
import TagScript.Proofs.Engine.Advance

/-! Engines that are put together from parts. They find no commands but those of the parts, and each
under a name of its own. -/

namespace TagScript

variable {η : Type}

namespace CommandTable

def Lists (commands : List (Command η)) (table : CommandTable η) : Prop :=
  ∀ named ∈ table.commands, named.2 ∈ commands ∧ named.1 ∈ namesOf named.2

variable {commands : List (Command η)} {command : Command η} {table built : CommandTable η}

theorem Lists.register (lists : table.Lists commands) (listed : command ∈ commands)
    (registered : table.register command = .ok built) : built.Lists commands := by
  have added (names : List String) (subset : names ⊆ namesOf command)
      (held : Table (Command η)) (lists : Lists commands ⟨held⟩) :
      Lists commands ⟨names.foldl (fun held name => held.set name command) held⟩ := by
    induction names generalizing held with
    | nil => exact lists
    | cons name rest ih =>
        rw [List.cons_subset] at subset
        refine ih subset.2 _ fun named member => ?_
        rcases Table.mem_set member with rfl | old
        · exact ⟨listed, subset.1⟩
        · exact lists named old
  obtain ⟨succeeded, rfl⟩ := register_eq_ok_iff.1 registered
  rw [enroll] at succeeded ⊢
  cases found : (namesOf command).find? table.commands.holds with
  | some taken =>
      rw [found] at succeeded
      cases succeeded
  | none => exact added _ (List.Subset.refl _) table.commands lists

theorem ofList_lists (listed : ofList commands = .ok built) : built.Lists commands := by
  have folded (rest : List (Command η)) (subset : rest ⊆ commands) (table : CommandTable η)
      (lists : table.Lists commands)
      (done : rest.foldlM (fun table command => table.register command) table = .ok built) :
      built.Lists commands := by
    induction rest generalizing table with
    | nil =>
        obtain rfl := Except.ok.inj done
        exact lists
    | cons command rest ih =>
        rw [List.cons_subset] at subset
        obtain ⟨next, registered, done⟩ := of_foldlM_register_cons done
        exact ih subset.2 next (lists.register subset.1 registered) done
  exact folded commands (List.Subset.refl _) empty (fun _ member => absurd member List.not_mem_nil)
    listed

theorem Lists.find? (lists : table.Lists commands) {name : String}
    (found : table.find? name = some command) :
    command ∈ commands ∧ Text.lower name ∈ namesOf command := by
  obtain ⟨before, after, split, _⟩ := List.lookup_eq_some_iff.1 found
  exact lists (Text.lower name, command) (by simp [split])

end CommandTable

namespace EngineParts

variable {parts : EngineParts η} {engine : Engine η}

theorem build_eq_ok (built : parts.build = .ok engine) :
    engine.commands.Lists parts.commands ∧
      engine.resolvers = parts.resolvers ∧ engine.attributes = parts.attributes := by
  unfold build at built
  cases listed : CommandTable.ofList parts.commands with
  | error error =>
      rw [listed] at built
      cases built
  | ok table =>
      rw [listed] at built
      obtain rfl := Except.ok.inj built
      exact ⟨CommandTable.ofList_lists listed, rfl, rfl⟩

theorem build_regular {free : Bool}
    (commands : ∀ command ∈ parts.commands, command ∈ Command.builtins ∨ command.Harmless)
    (resolvers : ∀ resolver ∈ parts.resolvers, ∀ lookup, (resolver.resolve lookup).Plain free)
    (attributes : ∀ handler ∈ parts.attributes, ∀ value lookup position,
      (handler.apply value lookup position).Plain free)
    (built : parts.build = .ok engine) : engine.Regular free := by
  obtain ⟨lists, sameResolvers, sameAttributes⟩ := build_eq_ok built
  exact ⟨fun name command found => commands command (lists.find? found).1,
    sameResolvers ▸ resolvers, sameAttributes ▸ attributes⟩

end EngineParts

end TagScript
