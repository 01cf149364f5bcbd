import Mathlib.Data.List.Nodup
import Mathlib.Data.List.Perm.Subperm
import TagScript.Proofs.Queue.Turn

/-! A fresh id is the id of no live queue. Numbers are tried one after another, one more of them than
there are live queues, and different numbers make different ids in lower case too. -/

namespace TagScript

variable {η : Type}

namespace Text

theorem meetsCased_underscore (front back : List Char) :
    meetsCased (front ++ '_' :: back) = meetsCased (front ++ ['_']) := by
  induction front with
  | nil => rfl
  | cons c rest ih =>
      unfold meetsCased at ih ⊢
      cases ignorable : isCaseIgnorable c with
      | true => simpa [List.dropWhile_cons, ignorable] using ih
      | false => simp [ignorable]

theorem lowerFrom_underscore (before front : List Char) :
    ∃ lowered passed, ∀ back, lowerFrom before (front ++ '_' :: back) =
      lowered ++ '_' :: lowerFrom passed back := by
  induction front generalizing before with
  | nil => exact ⟨[], '_' :: before, fun _ => rfl⟩
  | cons c rest ih =>
      obtain ⟨lowered, passed, same⟩ := ih (c :: before)
      let first := if c == 'Σ' then
          [if meetsCased before && !meetsCased (rest ++ ['_']) then 'ς' else 'σ']
        else lowerChar c
      refine ⟨first ++ lowered, passed, fun back => ?_⟩
      rw [List.cons_append, lowerFrom, same, meetsCased_underscore, List.append_assoc]

theorem lowerFrom_digits (before : List Char) {digits : List Char}
    (areDigits : ∀ c ∈ digits, c.isDigit = true) : lowerFrom before digits = digits := by
  induction digits generalizing before with
  | nil => rfl
  | cons c rest ih =>
      have isDigit := areDigits c (by simp)
      simp only [Char.isDigit, Bool.and_eq_true, decide_eq_true_eq, ge_iff_le] at isDigit
      obtain ⟨lower, upper⟩ := isDigit
      have same : lowerChar c = [c] := by
        have small : c.toNat ≤ 57 := upper
        rw [lowerChar, if_pos (by omega)]
        unfold Char.toLower
        rw [dif_neg]
        intro capital
        have large : 65 ≤ c.toNat := capital.1
        omega
      have notSigma : (c == 'Σ') = false := by
        rw [beq_eq_false_iff_ne]
        rintro rfl
        exact absurd upper (by decide)
      rw [lowerFrom, ih _ fun other member => areDigits other (by simp [member]), same, notSigma]
      rfl

theorem lower_numbered (stem : String) :
    ∃ lowered, ∀ number : Nat,
      (lower s!"{stem}_{number}").toList = lowered ++ '_' :: Nat.toDigits 10 number := by
  obtain ⟨lowered, passed, split⟩ := lowerFrom_underscore [] stem.toList
  refine ⟨lowered, fun number => ?_⟩
  have shown : (s!"{stem}_{number}").toList = stem.toList ++ '_' :: Nat.toDigits 10 number := by
    simp only [String.toList_append, Nat.toString_eq_ofList_toDigits, String.toList_ofList,
      List.append_assoc]
    rfl
  rw [lower, String.toList_ofList, shown, split, lowerFrom_digits]
  exact fun c member => Nat.isDigit_of_mem_toDigits (by decide) (by decide) member

theorem takeWhile_reverse_digits (front : List Char) (number : Nat) :
    (front ++ '_' :: Nat.toDigits 10 number).reverse.takeWhile (·.isDigit) =
      (Nat.toDigits 10 number).reverse := by
  have digits : ∀ c ∈ (Nat.toDigits 10 number).reverse, c.isDigit = true := fun c member =>
    Nat.isDigit_of_mem_toDigits (by decide) (by decide) (List.mem_reverse.1 member)
  rw [List.reverse_append, List.reverse_cons, List.append_assoc,
    List.takeWhile_append_of_pos digits]
  simp

theorem lower_numbered_inj {stem other : String} {number next : Nat}
    (same : lower s!"{stem}_{number}" = lower s!"{other}_{next}") : number = next := by
  obtain ⟨lowered, numbered⟩ := lower_numbered stem
  obtain ⟨otherLowered, otherNumbered⟩ := lower_numbered other
  have ends := congrArg (·.toList.reverse.takeWhile (·.isDigit)) same
  rw [numbered, otherNumbered, takeWhile_reverse_digits, takeWhile_reverse_digits] at ends
  have numbers := congrArg (Nat.ofDigitChars 10 · 0) (List.reverse_inj.1 ends)
  simpa [Nat.ofDigitChars_ten_toDigits] using numbers

end Text

namespace World

theorem freshIdFrom_taken {live : Table QueueRef} {stem : String} {counter tries : Nat}
    (taken : live.holds (Text.lower (freshIdFrom live stem counter tries).1) = true) :
    ∀ step ≤ tries, live.holds (Text.lower s!"{stem}_{counter + 1 + step}") = true := by
  induction tries generalizing counter with
  | zero =>
      intro step le
      obtain rfl := Nat.le_zero.1 le
      exact taken
  | succ tries ih =>
      rw [freshIdFrom] at taken
      split at taken
      · rename_i held
        intro step le
        cases step with
        | zero => exact held
        | succ step =>
            have later := ih taken step (Nat.le_of_succ_le_succ le)
            rwa [Nat.add_right_comm (counter + 1) 1 step] at later
      · rename_i free
        exact absurd taken free

theorem mem_names_of_holds {live : Table QueueRef} {name : String}
    (held : live.holds name = true) : name ∈ live.names := by
  obtain ⟨ref, found⟩ := Option.isSome_iff_exists.1 held
  obtain ⟨before, after, split, _⟩ := List.lookup_eq_some_iff.1 found
  simp [Table.names, split]

theorem liveQueue?_freshId (stem : String) (world : World η) :
    (world.freshId stem).2.liveQueue? (world.freshId stem).1 = none := by
  by_contra found
  have taken : world.live.holds (Text.lower (freshIdFrom world.live stem world.counter
      world.live.length).1) = true := Option.isSome_iff_ne_none.2 found
  have all := freshIdFrom_taken taken
  let names := (List.range (world.live.length + 1)).map fun step =>
    Text.lower s!"{stem}_{world.counter + 1 + step}"
  have distinct : names.Nodup := by
    refine List.Nodup.map ?_ List.nodup_range
    intro step other same
    have := Text.lower_numbered_inj same
    omega
  have known : names ⊆ world.live.names := by
    intro name member
    obtain ⟨step, inRange, rfl⟩ := List.mem_map.1 member
    exact mem_names_of_holds (all step (by simpa [Nat.lt_succ_iff] using inRange))
  have few := (List.subperm_of_subset distinct known).length_le
  simp only [names, Table.names, List.length_map, List.length_range] at few
  omega

theorem queueOrCreate_freshId (stem : String) (kind : QueueKind) (world : World η) :
    ((world.freshId stem).2.queueOrCreate (world.freshId stem).1 kind).1 =
      (⟨world.queues.size⟩, true) := by
  unfold queueOrCreate
  rw [liveQueue?_freshId]
  rfl

end World

end TagScript
