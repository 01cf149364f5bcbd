import Mathlib.Data.List.Nodup
import TagScript.Proofs.Script.Filing

/-! How the arguments of an entry are used up. A ledger says of each argument, by the place where it
first stood, whether it was handed out or removed; every use enters something in it, and the
arguments always are what the ledger tells. -/

namespace TagScript.Arguments

variable {μ : Type}

theorem run_bind_of_run {α β : Type} {act : StateM μ α} {next : α → StateM μ β} {value : α}
    {memory later : μ} (ran : act.run memory = (value, later)) :
    (act >>= next).run memory = (next value).run later := by
  rw [StateT.run_bind, ran]
  rfl

inductive Use (μ : Type) where
  | positional (index : Nat)
  | prefixed (word : String)
  | takePrefixed (word : String)
  | takeFlag (word : String)
  | offer (claim : String → String → StateM μ Bool)
  | remaining

inductive Answer where
  | value (found : Option String)
  | flag (found : Bool)
  | offered
  | text (joined : String)

def use (arguments : Arguments) : Use μ → StateM μ (Answer × Arguments)
  | .positional index =>
    pure (.value (arguments.positional? index).1, (arguments.positional? index).2)
  | .prefixed word => pure (.value (arguments.prefixed? word).1, (arguments.prefixed? word).2)
  | .takePrefixed word =>
    pure (.value (arguments.takePrefixed word).1, (arguments.takePrefixed word).2)
  | .takeFlag word => pure (.flag (arguments.takeFlag word).1, (arguments.takeFlag word).2)
  | .offer claim => do return (.offered, ← arguments.offer claim)
  | .remaining => pure (.text arguments.remaining.1, arguments.remaining.2)

def useAll (arguments : Arguments) : List (Use μ) → StateM μ (List Answer × Arguments)
  | [] => pure ([], arguments)
  | use :: rest => do
    let (answer, next) ← arguments.use use
    let (answers, last) ← next.useAll rest
    return (answer :: answers, last)

/-- What became of arguments. Positional ones go by the place where they first stood, others by the
word under which they are kept. -/
structure Ledger where
  returned : List Nat := []
  flagged : List Nat := []
  claimed : List Nat := []
  read : List String := []
  taken : List String := []

namespace Ledger

variable (first : Arguments) (ledger : Ledger)

def textAt (first : Arguments) (place : Nat) : String :=
  ((first.positional[place]?).map (·.value)).getD ""

def present : List Nat :=
  (List.range first.positional.length).filter fun place =>
    place ∉ ledger.flagged ∧ place ∉ ledger.claimed

def unreturned : List Nat :=
  (ledger.present first).filter (· ∉ ledger.returned)

def kept : Table Argument :=
  first.prefixed.filter (·.1 ∉ ledger.taken)

def removed : Nat :=
  ledger.flagged.length + ledger.claimed.length + ledger.taken.length

inductive Offered (claim : String → String → StateM μ Bool) :
    List Nat → μ → List Nat → μ → Prop
  | nil (memory : μ) : Offered claim [] memory [] memory
  | plain {place : Nat} {places accepted : List Nat} {memory later : μ}
      (uncut : cutWord? (textAt first place) = none)
      (others : Offered claim places memory accepted later) :
      Offered claim (place :: places) memory accepted later
  | accepted {place : Nat} {places accepted : List Nat} {word value : String}
      {memory between later : μ} (cut : cutWord? (textAt first place) = some (word, value))
      (claims : (claim word value).run memory = (true, between))
      (others : Offered claim places between accepted later) :
      Offered claim (place :: places) memory (place :: accepted) later
  | refused {place : Nat} {places accepted : List Nat} {word value : String}
      {memory between later : μ} (cut : cutWord? (textAt first place) = some (word, value))
      (refuses : (claim word value).run memory = (false, between))
      (others : Offered claim places between accepted later) :
      Offered claim (place :: places) memory accepted later

inductive Entered (memory : μ) : Use μ → Answer → Ledger → μ → Prop
  | positional (index : Nat) :
      Entered memory (.positional index)
        (.value (((ledger.present first)[index]?).map (textAt first)))
        { ledger with returned := ((ledger.present first)[index]?).toList ++ ledger.returned }
        memory
  | prefixed (word : String) :
      Entered memory (.prefixed word)
        (.value (((ledger.kept first).get? (Text.asciiLower word)).map (·.value)))
        { ledger with read := Text.asciiLower word :: ledger.read } memory
  | taken {word : String} {argument : Argument}
      (found : (ledger.kept first).get? (Text.asciiLower word) = some argument) :
      Entered memory (.takePrefixed word) (.value (some argument.value))
        { ledger with taken := Text.asciiLower word :: ledger.taken } memory
  | untaken {word : String} (absent : (ledger.kept first).get? (Text.asciiLower word) = none) :
      Entered memory (.takePrefixed word) (.value none) ledger memory
  | flagged {word : String} {place : Nat}
      (found : (ledger.present first).find? (fun place =>
        Text.sameWord (textAt first place) word) = some place) :
      Entered memory (.takeFlag word) (.flag true)
        { ledger with flagged := place :: ledger.flagged } memory
  | unflagged {word : String}
      (absent : (ledger.present first).find? (fun place =>
        Text.sameWord (textAt first place) word) = none) :
      Entered memory (.takeFlag word) (.flag false) ledger memory
  | offered {claim : String → String → StateM μ Bool} {accepted : List Nat} {later : μ}
      (offers : Offered first claim (ledger.present first) memory accepted later) :
      Entered memory (.offer claim) .offered
        { ledger with claimed := accepted ++ ledger.claimed } later
  | remaining :
      Entered memory .remaining
        (.text (Text.spaced ((ledger.unreturned first).map (textAt first))))
        { ledger with returned := ledger.unreturned first ++ ledger.returned } memory

def noted (place : Nat) : Argument :=
  ⟨textAt first place, decide (place ∈ ledger.returned)⟩

/-- The arguments as a ledger tells them. -/
structure Tells (arguments : Arguments) : Prop where
  positional : arguments.positional = (ledger.present first).map (ledger.noted first)
  prefixed : arguments.prefixed = (ledger.kept first).map fun named =>
    (named.1, ⟨named.2.value, decide (named.1 ∈ ledger.read)⟩)
  size : (ledger.present first).length + (ledger.kept first).length + ledger.removed = first.size

theorem nodup_present : (ledger.present first).Nodup := List.nodup_range.filter _

variable {first ledger} {arguments : Arguments}

theorem nodup_kept (fresh : first.Fresh) : (ledger.kept first).names.Nodup :=
  fresh.unique.sublist (List.filter_sublist.map _)

theorem map_textAt (first : Arguments) :
    (List.range first.positional.length).map (textAt first) =
      first.positional.map (·.value) := by
  refine List.ext_getElem (by simp) fun index below other => ?_
  have inside : index < first.positional.length := by simpa using below
  simp [textAt, inside]

theorem unclaimed_run (ledger : Ledger) (claim : String → String → StateM μ Bool)
    {places : List Nat} (nodup : places.Nodup) (memory : μ) :
    ∃ accepted later, Offered first claim places memory accepted later ∧
      accepted ⊆ places ∧
      (places.filter (· ∉ accepted)).length + accepted.length = places.length ∧
      (unclaimed claim (places.map (ledger.noted first))).run memory =
        ((places.filter (· ∉ accepted)).map (ledger.noted first), later) := by
  induction places generalizing memory with
  | nil => exact ⟨[], memory, .nil memory, List.Subset.refl [], rfl, rfl⟩
  | cons place places ih =>
      obtain ⟨absent, nodup⟩ := List.nodup_cons.1 nodup
      have stays {accepted : List Nat} (within : accepted ⊆ places) :
          (place :: places).filter (· ∉ accepted) = place :: places.filter (· ∉ accepted) :=
        List.filter_cons_of_pos (by simpa using fun member => absent (within member))
      rw [List.map_cons, unclaimed]
      cases cut : cutWord? (ledger.noted first place).value with
      | none =>
          obtain ⟨accepted, later, offers, within, count, ran⟩ := ih nodup memory
          refine ⟨accepted, later, .plain cut offers, List.subset_cons_of_subset place within, ?_,
            ?_⟩
          · rw [stays within, List.length_cons, List.length_cons]
            omega
          · rw [stays within, List.map_cons]
            exact run_bind_of_run ran
      | some pair =>
          obtain ⟨word, value⟩ := pair
          dsimp only
          cases answered : (claim word value).run memory with
          | mk claims between =>
              obtain ⟨accepted, later, offers, within, count, ran⟩ := ih nodup between
              cases claims with
              | true =>
                  have goes : (place :: places).filter (· ∉ place :: accepted) =
                      places.filter (· ∉ accepted) := by
                    rw [List.filter_cons_of_neg (by simp)]
                    refine List.filter_congr fun other member => ?_
                    have different : other ≠ place := by
                      rintro rfl
                      exact absent member
                    simp [different]
                  refine ⟨place :: accepted, later, .accepted cut answered offers,
                    List.cons_subset_cons place within, ?_, ?_⟩
                  · rw [goes, List.length_cons, List.length_cons]
                    omega
                  · rw [goes, run_bind_of_run answered]
                    exact ran
              | false =>
                  refine ⟨accepted, later, .refused cut answered offers,
                    List.subset_cons_of_subset place within, ?_, ?_⟩
                  · rw [stays within, List.length_cons, List.length_cons]
                    omega
                  · rw [stays within, List.map_cons, run_bind_of_run answered]
                    exact run_bind_of_run ran

namespace Tells

theorem start (fresh : first.Fresh) : ({} : Ledger).Tells first first where
  positional := by
    refine List.ext_getElem (by simp [present]) fun index below other => ?_
    have unread := fresh.positional _ (List.getElem_mem below)
    simp [present, noted, textAt, below, ← unread]
  prefixed := by
    rw [kept, List.filter_eq_self.2 (by simp)]
    refine ((List.map_congr_left fun named member => ?_).trans (List.map_id _)).symm
    simp [← fresh.prefixed named member]
  size := by simp [present, kept, removed, Arguments.size]

theorem positional? (tells : ledger.Tells first arguments) (index : Nat) :
    (arguments.positional? index).1 = ((ledger.present first)[index]?).map (textAt first) ∧
      { ledger with returned :=
        ((ledger.present first)[index]?).toList ++ ledger.returned }.Tells first
          (arguments.positional? index).2 := by
  unfold Arguments.positional?
  rw [tells.positional, List.getElem?_map]
  cases at_ : (ledger.present first)[index]? with
  | none => exact ⟨rfl, tells⟩
  | some place =>
      refine ⟨rfl, ?_, tells.prefixed, tells.size⟩
      obtain ⟨below, rfl⟩ := List.getElem?_eq_some_iff.1 at_
      let place := (ledger.present first)[index]
      have nodup := nodup_present first ledger
      have updated := nodup.map_update (ledger.noted first) place ⟨textAt first place, true⟩
      rw [if_pos (List.getElem_mem below), nodup.idxOf_getElem] at updated
      refine updated.symm.trans (List.map_congr_left fun other _ => ?_)
      by_cases same : other = place
      · subst same
        simp [place, noted]
      · rw [Function.update_of_ne same]
        simp [place, noted, same]

theorem prefixed? (fresh : first.Fresh) (tells : ledger.Tells first arguments) (word : String) :
    (arguments.prefixed? word).1 =
        ((ledger.kept first).get? (Text.asciiLower word)).map (·.value) ∧
      { ledger with read := Text.asciiLower word :: ledger.read }.Tells first
        (arguments.prefixed? word).2 := by
  unfold Arguments.prefixed?
  dsimp only
  rw [tells.prefixed, Table.get?_map]
  cases found : (ledger.kept first).get? (Text.asciiLower word) with
  | none =>
      refine ⟨rfl, tells.positional, ?_, tells.size⟩
      rw [Option.map_none, tells.prefixed]
      refine List.map_congr_left fun named member => ?_
      have other : named.1 ≠ Text.asciiLower word := by
        intro same
        exact Table.get?_eq_none_iff.1 found (same ▸ List.mem_map_of_mem member)
      simp [other]
  | some argument =>
      refine ⟨rfl, tells.positional, ?_, tells.size⟩
      have member := Table.mem_of_get? found
      have names : Table.names ((ledger.kept first).map fun named =>
          (named.1, (⟨named.2.value, decide (named.1 ∈ ledger.read)⟩ : Argument))) =
          (ledger.kept first).names := by simp [Table.names, Function.comp_def]
      rw [Option.map_some]
      dsimp only
      rw [Table.set_of_mem (names ▸ nodup_kept fresh)
        (names ▸ List.mem_map_of_mem member), List.map_map]
      refine List.map_congr_left fun named known => ?_
      by_cases same : named.1 = Text.asciiLower word
      · have only := Table.get?_of_mem (nodup_kept fresh) known
        rw [same, found] at only
        simp [same, Option.some.inj only]
      · simp [same]

theorem takePrefixed (fresh : first.Fresh) (tells : ledger.Tells first arguments) (memory : μ)
    (word : String) :
    ∃ entered, Entered first ledger memory (.takePrefixed word)
        (.value (arguments.takePrefixed word).1) entered memory ∧
      entered.Tells first (arguments.takePrefixed word).2 := by
  let key := Text.asciiLower word
  have erased : arguments.prefixed.erase key =
      (Table.erase key (ledger.kept first)).map fun named =>
        (named.1, ⟨named.2.value, decide (named.1 ∈ ledger.read)⟩) := by
    rw [tells.prefixed, Table.erase, Table.erase, List.filter_map]
    rfl
  unfold Arguments.takePrefixed
  dsimp only
  rw [tells.prefixed, Table.get?_map, ← tells.prefixed, erased]
  cases found : (ledger.kept first).get? key with
  | none =>
      refine ⟨ledger, .untaken found, tells.positional, ?_, tells.size⟩
      rw [Table.erase_of_not_mem (Table.get?_eq_none_iff.1 found)]
  | some argument =>
      have member : key ∈ (ledger.kept first).names :=
        List.mem_map.2 ⟨_, Table.mem_of_get? found, rfl⟩
      have entered : Entered first ledger memory (.takePrefixed word)
          (.value (some argument.value)) _ memory := .taken found
      have gone : ({ ledger with taken := key :: ledger.taken } : Ledger).kept first =
          Table.erase key (ledger.kept first) := by
        rw [kept, kept, Table.erase, List.filter_filter]
        refine List.filter_congr fun named _ => ?_
        simp [bne, Bool.and_comm, beq_eq_decide]
      have count := Table.length_erase (nodup_kept fresh) member
      have before := tells.size
      refine ⟨_, entered, tells.positional, ?_, ?_⟩
      · rw [gone]
      · rw [gone]
        simp only [removed, present, List.length_cons] at before ⊢
        omega

theorem takeFlag (tells : ledger.Tells first arguments) (memory : μ) (word : String) :
    ∃ entered, Entered first ledger memory (.takeFlag word) (.flag (arguments.takeFlag word).1)
        entered memory ∧ entered.Tells first (arguments.takeFlag word).2 := by
  let isWord (place : Nat) : Bool := Text.sameWord (textAt first place) word
  have known : arguments.positional.findIdx? (fun argument => Text.sameWord argument.value word) =
      (ledger.present first).findIdx? isWord := by
    rw [tells.positional, List.findIdx?_map]
    rfl
  unfold Arguments.takeFlag
  rw [known]
  cases found : (ledger.present first).find? isWord with
  | none =>
      rw [List.findIdx?_eq_none_iff.2 fun place member => by
        simpa using List.find?_eq_none.1 found place member]
      exact ⟨ledger, .unflagged found, tells⟩
  | some place =>
      obtain ⟨isPlace, front, back, split, others⟩ := List.find?_eq_some_iff_append.1 found
      have index : (ledger.present first).findIdx? isWord = some front.length := by
        rw [split, List.findIdx?_append, List.findIdx?_eq_none_iff.2 (by simpa using others),
          List.findIdx?_cons, isPlace]
        simp
      have nodup := nodup_present first ledger
      have gone : ({ ledger with flagged := place :: ledger.flagged } : Ledger).present first =
          front ++ back := by
        have filtered : ({ ledger with flagged := place :: ledger.flagged } : Ledger).present
            first = (ledger.present first).filter (· != place) := by
          rw [present, present, List.filter_filter]
          refine List.filter_congr fun other _ => ?_
          simp [bne, beq_eq_decide, and_assoc]
        have absent : place ∉ front := fun member =>
          (List.nodup_append.1 (split ▸ nodup)).2.2 place member place List.mem_cons_self rfl
        rw [filtered, ← nodup.erase_eq_filter, split, List.erase_append_right _ absent,
          List.erase_cons_head]
      have before := tells.size
      rw [index]
      refine ⟨_, .flagged found, ?_, tells.prefixed, ?_⟩
      · dsimp only
        rw [gone, tells.positional, split, List.map_append, List.map_append, List.map_cons,
          List.eraseIdx_append_of_length_le (by simp), List.length_map, Nat.sub_self]
        rfl
      · rw [gone]
        rw [split] at before
        simp only [removed, kept, List.length_append, List.length_cons] at before ⊢
        omega

theorem offer (tells : ledger.Tells first arguments) (claim : String → String → StateM μ Bool)
    (memory : μ) :
    ∃ next entered later, (arguments.offer claim).run memory = (next, later) ∧
      Entered first ledger memory (.offer claim) .offered entered later ∧
      entered.Tells first next := by
  obtain ⟨accepted, later, offers, _, count, ran⟩ := ledger.unclaimed_run claim
    (nodup_present first ledger) memory
  have gone : ({ ledger with claimed := accepted ++ ledger.claimed } : Ledger).present first =
      (ledger.present first).filter (· ∉ accepted) := by
    rw [present, present, List.filter_filter]
    refine List.filter_congr fun other _ => ?_
    simp [and_left_comm]
  have before := tells.size
  rw [← tells.positional] at ran
  refine ⟨{ arguments with positional :=
    ((ledger.present first).filter (· ∉ accepted)).map (ledger.noted first) },
    { ledger with claimed := accepted ++ ledger.claimed }, later, ?_, .offered offers, ?_,
    tells.prefixed, ?_⟩
  · exact run_bind_of_run ran
  · rw [gone]
    rfl
  · rw [gone]
    simp only [removed, kept, List.length_append] at before count ⊢
    omega

theorem unread_values (tells : ledger.Tells first arguments) :
    (arguments.positional.filter (!·.read)).map (·.value) =
      (ledger.unreturned first).map (textAt first) := by
  rw [tells.positional, List.filter_map, List.map_map, unreturned]
  refine congrArg _ (List.filter_congr fun place _ => ?_)
  simp [noted]

theorem remaining (tells : ledger.Tells first arguments) :
    arguments.remaining.1 = Text.spaced ((ledger.unreturned first).map (textAt first)) ∧
      { ledger with returned := ledger.unreturned first ++ ledger.returned }.Tells first
        arguments.remaining.2 := by
  refine ⟨congrArg Text.spaced tells.unread_values, ?_, tells.prefixed, tells.size⟩
  rw [Arguments.remaining, tells.positional, List.map_map]
  refine List.map_congr_left fun place member => ?_
  have returned : place ∈ ledger.unreturned first ++ ledger.returned := by
    rw [List.mem_append, unreturned, List.mem_filter, decide_eq_true_iff]
    by_cases earlier : place ∈ ledger.returned
    · exact .inr earlier
    · exact .inl ⟨member, earlier⟩
  simp only [Function.comp_apply, noted, decide_eq_true returned]

/-- Every use enters in the ledger what keeps it true. -/
theorem use (fresh : first.Fresh) (tells : ledger.Tells first arguments) (use : Use μ)
    (memory : μ) :
    ∃ answer next entered later, (arguments.use use).run memory = ((answer, next), later) ∧
      Entered first ledger memory use answer entered later ∧ entered.Tells first next := by
  cases use with
  | positional index =>
      obtain ⟨found, tells⟩ := tells.positional? index
      exact ⟨_, _, _, memory, rfl, found ▸ .positional index, tells⟩
  | prefixed word =>
      obtain ⟨found, tells⟩ := tells.prefixed? fresh word
      exact ⟨_, _, _, memory, rfl, found ▸ .prefixed word, tells⟩
  | takePrefixed word =>
      obtain ⟨entered, enters, tells⟩ := tells.takePrefixed fresh memory word
      exact ⟨_, _, entered, memory, rfl, enters, tells⟩
  | takeFlag word =>
      obtain ⟨entered, enters, tells⟩ := tells.takeFlag memory word
      exact ⟨_, _, entered, memory, rfl, enters, tells⟩
  | offer claim =>
      obtain ⟨next, entered, later, ran, enters, tells⟩ := tells.offer claim memory
      exact ⟨.offered, next, entered, later, run_bind_of_run ran, enters, tells⟩
  | remaining =>
      obtain ⟨joined, tells⟩ := tells.remaining
      exact ⟨_, _, _, memory, rfl, joined ▸ .remaining, tells⟩

end Tells

inductive Records (first : Arguments) :
    Ledger → μ → List (Use μ) → List Answer → Ledger → μ → Prop
  | nil (ledger : Ledger) (memory : μ) : Records first ledger memory [] [] ledger memory
  | cons {ledger between last : Ledger} {memory middle later : μ} {use : Use μ} {answer : Answer}
      {uses : List (Use μ)} {answers : List Answer}
      (entered : Entered first ledger memory use answer between middle)
      (others : Records first between middle uses answers last later) :
      Records first ledger memory (use :: uses) (answer :: answers) last later

theorem Tells.useAll (fresh : first.Fresh) (tells : ledger.Tells first arguments)
    (uses : List (Use μ)) (memory : μ) :
    ∃ answers last final later,
      (arguments.useAll uses).run memory = ((answers, last), later) ∧
      Records first ledger memory uses answers final later ∧ final.Tells first last := by
  induction uses generalizing ledger arguments memory with
  | nil => exact ⟨[], arguments, ledger, memory, rfl, .nil ledger memory, tells⟩
  | cons use uses ih =>
      obtain ⟨answer, next, entered, middle, used, enters, tells⟩ := tells.use fresh use memory
      obtain ⟨answers, last, final, later, ran, records, tells⟩ := ih tells middle
      refine ⟨answer :: answers, last, final, later, ?_, .cons enters records, tells⟩
      rw [Arguments.useAll, run_bind_of_run used]
      exact run_bind_of_run ran

theorem unreturned_eq_nil_iff :
    ledger.unreturned first = [] ↔ ∀ place ∈ ledger.present first, place ∈ ledger.returned := by
  simp [unreturned]

theorem Entered.present_subset {memory later : μ} {use : Use μ} {answer : Answer}
    {entered : Ledger} (enters : Entered first ledger memory use answer entered later) :
    entered.present first ⊆ ledger.present first := by
  have fewer {flagged claimed : List Nat} (more : ledger.flagged ⊆ flagged)
      (others : ledger.claimed ⊆ claimed) :
      ({ ledger with flagged, claimed } : Ledger).present first ⊆ ledger.present first := by
    intro place member
    simp only [present, List.mem_filter, decide_eq_true_iff] at member ⊢
    exact ⟨member.1, fun old => member.2.1 (more old), fun old => member.2.2 (others old)⟩
  cases enters with
  | flagged => exact fewer (List.subset_cons_self _ _) (List.Subset.refl _)
  | offered => exact fewer (List.Subset.refl _) (List.subset_append_right _ _)
  | _ => exact List.Subset.refl _

theorem Entered.returned_subset {memory later : μ} {use : Use μ} {answer : Answer}
    {entered : Ledger} (enters : Entered first ledger memory use answer entered later) :
    ledger.returned ⊆ entered.returned := by
  cases enters with
  | positional => exact List.subset_append_right _ _
  | remaining => exact List.subset_append_right _ _
  | _ => exact List.Subset.refl _

theorem Entered.unreturned_nil {memory later : μ} {use : Use μ} {answer : Answer}
    {entered : Ledger} (enters : Entered first ledger memory use answer entered later)
    (none : ledger.unreturned first = []) : entered.unreturned first = [] :=
  unreturned_eq_nil_iff.2 fun place member => enters.returned_subset
    (unreturned_eq_nil_iff.1 none place (enters.present_subset member))

theorem Entered.unreturned_of_remaining {memory later : μ} {answer : Answer} {entered : Ledger}
    (enters : Entered first ledger memory (.remaining : Use μ) answer entered later) :
    entered.unreturned first = [] := by
  cases enters
  refine unreturned_eq_nil_iff.2 fun place member => ?_
  rw [List.mem_append, unreturned, List.mem_filter, decide_eq_true_iff]
  by_cases earlier : place ∈ ledger.returned
  · exact .inr earlier
  · exact .inl ⟨member, earlier⟩

namespace Records

variable {memory later : μ} {uses : List (Use μ)} {answers : List Answer} {last : Ledger}

theorem unreturned_nil (records : Records first ledger memory uses answers last later)
    (none : ledger.unreturned first = []) : last.unreturned first = [] := by
  induction records with
  | nil => exact none
  | cons entered _ ih => exact ih (entered.unreturned_nil none)

theorem unreturned_of_remaining (records : Records first ledger memory uses answers last later)
    (called : .remaining ∈ uses) : last.unreturned first = [] := by
  induction records with
  | nil => cases called
  | cons entered others ih =>
      rcases List.mem_cons.1 called with rfl | called
      · exact others.unreturned_nil entered.unreturned_of_remaining
      · exact ih called

end Records

/-- What the ledger says of the arguments that are left. -/
structure Accounted (first : Arguments) (ledger : Ledger) (last : Arguments) : Prop where
  values : last.positional.map (·.value) = (ledger.present first).map (textAt first)
  subsequence : (last.positional.map (·.value)).Sublist (first.positional.map (·.value))
  unread : last.unread = (ledger.unreturned first).map (textAt first) ++
    sortedTexts (((ledger.kept first).filter (·.1 ∉ ledger.read)).map shown)
  remaining : last.remaining.1 = Text.spaced ((ledger.unreturned first).map (textAt first))
  size : last.size + ledger.removed = first.size
  allRead : last.allRead = true ↔ last.unread = []

end Ledger

theorem sortedTexts_eq_nil_iff {texts : List String} : sortedTexts texts = [] ↔ texts = [] := by
  rw [← List.perm_nil, ← List.perm_nil]
  exact ⟨(sortedTexts_perm texts).symm.trans, (sortedTexts_perm texts).trans⟩

theorem allRead_iff (arguments : Arguments) :
    arguments.allRead = true ↔ arguments.unread = [] := by
  simp [allRead, unread, sortedTexts_eq_nil_iff]

theorem Ledger.Tells.accounted {first : Arguments} {ledger : Ledger} {arguments : Arguments}
    (tells : ledger.Tells first arguments) : ledger.Accounted first arguments := by
  have values : arguments.positional.map (·.value) = (ledger.present first).map (textAt first) := by
    rw [tells.positional, List.map_map]
    rfl
  refine ⟨values, ?_, ?_, tells.remaining.1, ?_, allRead_iff arguments⟩
  · rw [values, ← map_textAt]
    exact List.filter_sublist.map _
  · rw [Arguments.unread, tells.unread_values]
    refine congrArg (_ ++ sortedTexts ·) ?_
    rw [tells.prefixed, List.filter_map, List.map_map]
    refine congrArg _ (List.filter_congr fun named _ => ?_)
    simp
  · rw [← tells.size, Arguments.size, tells.positional, tells.prefixed, List.length_map,
      List.length_map]

/-- However the arguments of an entry are used, a ledger accounts for them: it has an entry for each
use and what it answered, positional arguments leave only as keywords or as claimed offers and keep
their order, those not returned and the others not read are listed, and all that is gone was removed
by a use. What is left is handed out at most once. -/
theorem uses_accounted (known words : List String) (uses : List (Use μ)) (memory : μ) :
    ∃ answers last ledger later,
      ((ofFilled known words).useAll uses).run memory = ((answers, last), later) ∧
      Ledger.Records (ofFilled known words) {} memory uses answers ledger later ∧
      ledger.Accounted (ofFilled known words) last ∧
      (.remaining ∈ uses → last.remaining.1 = "") := by
  have fresh := Fresh.ofFilled known words
  obtain ⟨answers, last, ledger, later, ran, records, tells⟩ :=
    (Ledger.Tells.start fresh).useAll fresh uses memory
  refine ⟨answers, last, ledger, later, ran, records, tells.accounted, fun called => ?_⟩
  rw [tells.remaining.1, records.unreturned_of_remaining called]
  rfl

theorem uses_accounted_keyword :
    let uses : List (Use Unit) := [.takeFlag "PASSIVELY", .positional 1, .remaining]
    .remaining ∈ uses ∧ ∃ answers last ledger later,
      ((ofFilled ["id"] ["a", "passively", "b", "id:x"]).useAll uses).run () =
        ((answers, last), later) ∧
      Ledger.Records (ofFilled ["id"] ["a", "passively", "b", "id:x"]) {} () uses answers ledger
        later ∧
      last.unread = ["id:x"] ∧ last.size = 3 ∧ last.remaining.1 = "" := by
  intro uses
  obtain ⟨answers, last, ledger, later, ran, records, _, spent⟩ :=
    uses_accounted ["id"] ["a", "passively", "b", "id:x"] uses ()
  have called : .remaining ∈ uses := by simp [uses]
  obtain rfl : last = ⟨[⟨"a", true⟩, ⟨"b", true⟩], [("id", ⟨"x", false⟩)]⟩ :=
    (congrArg (·.1.2) ran).symm.trans (by decide +kernel)
  exact ⟨called, answers, _, ledger, later, ran, records, by decide +kernel, rfl, spent called⟩

end TagScript.Arguments
