import Esql.Proofs.Columns.Lookup
import Mathlib.Data.List.Induction

/-!
# What comes out of branches

The columns behind a fork are those of its branches one after the other, each listed where its name
first occurs and as the first branch lists it, with the tag of the rows at the end. The order of the
branches decides where a column stands and which type it has, but neither which columns there are
nor whether these are all.
-/

namespace Esql

namespace ColumnSet

/-- Listing fields once leaves each name where it first occurs. -/
theorem names_listOnce (fields : List Field) :
    (fields.foldl listOnce []).map (·.name) = (fields.map (·.name)).eraseDups := by
  induction fields using List.reverseRecOn with
  | nil => rfl
  | append_singleton fields field ih =>
      have listed : ((fields.foldl listOnce []).any fun known => known.name == field.name) = true ↔
          field.name ∈ fields.map (·.name) := by
        rw [← List.mem_eraseDups, ← ih, List.any_eq_true, List.mem_map]
        simp only [beq_iff_eq]
      rw [List.foldl_append, List.foldl_cons, List.foldl_nil, listOnce, List.map_append,
        List.map_singleton, List.eraseDups_append, ← ih, List.removeAll, List.filter_singleton]
      by_cases member : field.name ∈ fields.map (·.name)
      · rw [if_pos (listed.mpr member), List.elem_eq_true_of_mem member]
        exact (List.append_nil _).symm
      · have new : List.elem field.name (fields.map (·.name)) = false :=
          Bool.eq_false_iff.mpr (member ∘ List.mem_of_elem_eq_true)
        rw [if_neg (member ∘ listed.mp), new, List.map_append]
        rfl

/-- Merging lists every name of the branches where it first occurs. -/
theorem names_merge (outputs : List ColumnSet) :
    (merge outputs).names = (outputs.flatMap names).eraseDups := by
  rw [names, merge, names_listOnce, List.map_flatMap]
  rfl

theorem known_merge {outputs : List ColumnSet} :
    (merge outputs).known = true ↔ ∀ output ∈ outputs, output.known = true :=
  List.all_eq_true

variable {input other : ColumnSet} {outputs others : List ColumnSet}

theorem forked_of_ne_nil (branched : outputs ≠ []) :
    input.forked outputs = (merge outputs).insert forkColumn := by
  rw [forked, if_neg fun none => branched (List.isEmpty_iff.mp none)]

/-- Branches in another order make the same names, and leave as much unknown. -/
theorem forked_perm (branched : outputs ≠ []) (same : outputs.Perm others) (name : String) :
    (name ∈ (input.forked outputs).names ↔ name ∈ (input.forked others).names) ∧
      (input.forked outputs).known = (input.forked others).known := by
  have branched' : others ≠ [] := fun none => branched (none ▸ same).eq_nil
  rw [forked_of_ne_nil branched, forked_of_ne_nil branched', mem_names_insert, mem_names_insert,
    mem_names_merge, mem_names_merge]
  refine ⟨or_congr_right (exists_congr fun output => and_congr_left' same.mem_iff), ?_⟩
  change (merge outputs).known = (merge others).known
  rw [Bool.eq_iff_iff, known_merge, known_merge]
  exact forall_congr' fun output => imp_congr_left same.mem_iff

end ColumnSet

/-- Only the branches among some arguments make columns. -/
theorem Argument.outputs_eq_map (snapshot : Snapshot) (input : ColumnSet)
    (arguments : List Argument) :
    Argument.outputs snapshot input arguments =
      (arguments.filterMap Argument.branch?).map fun branch =>
        Command.outputOfAll snapshot input branch.commands := by
  induction arguments with
  | nil => rfl
  | cons argument rest ih =>
      cases argument with
      | branch branch =>
          cases branch with
          | mk commands =>
              rw [Argument.outputs, ih]
              rfl
      | _ => exact ih

namespace Command

variable {command : Command}

/-- What the branches of a command make of the same input, in order. -/
def branchOutputs (command : Command) (snapshot : Snapshot) (input : ColumnSet) :
    List ColumnSet :=
  command.branches.map fun branch => outputOfAll snapshot input branch.commands

theorem output_eq_forked (fork : command.name = "fork") (snapshot : Snapshot)
    (input : ColumnSet) :
    command.output snapshot input = input.forked (command.branchOutputs snapshot input) := by
  have named : Verb.ofName? command.name = some .fork := fork ▸ Verb.ofName?_name .fork
  rw [branchOutputs, branches, ← Argument.outputs_eq_map]
  cases command with
  | mk name => rw [output, named]

/-- For every fork with a branch, every input and all data of the schema: the fork makes the columns
that come out of its branches, each name once and where it first occurs, with what the first branch
that lists it says of its type; the tag of the rows, a keyword, is last. All columns are known if and
only if all those of every branch are. Another fork with the same branches in another order makes
columns of the same names, and they are known alike. These are the columns behind a fork that was
read to its end; behind another one nothing is known. -/
theorem output_fork (fork : command.name = "fork") (branched : command.branches ≠ [])
    (snapshot : Snapshot) (input : ColumnSet) :
    (command.output snapshot input).names =
        ((command.branchOutputs snapshot input).flatMap ColumnSet.names).eraseDups.filter
          (· != "_fork") ++ ["_fork"] ∧
      (∀ name, (command.output snapshot input).get? name =
        if name = "_fork" then some ⟨"_fork", some .keyword, false⟩
        else (command.branchOutputs snapshot input).findSome? (·.get? name)) ∧
      (command.output snapshot input).names.Nodup ∧
      ((command.output snapshot input).known = true ↔
        ∀ output ∈ command.branchOutputs snapshot input, output.known = true) ∧
      (∀ other : Command, other.name = "fork" → command.branches.Perm other.branches →
        (∀ name, name ∈ (command.output snapshot input).names ↔
          name ∈ (other.output snapshot input).names) ∧
        (command.output snapshot input).known = (other.output snapshot input).known) ∧
      command.after snapshot input =
        if command.incomplete then .unknown else command.output snapshot input := by
  have given : command.branchOutputs snapshot input ≠ [] := fun none =>
    branched (List.map_eq_nil_iff.mp none)
  have merged := (output_eq_forked fork snapshot input).trans (ColumnSet.forked_of_ne_nil given)
  refine ⟨?_, fun name => ?_, ?_, ?_, fun other forks same => ?_, rfl⟩
  · rw [merged, ColumnSet.names_insert, ColumnSet.names_merge]
    rfl
  · rw [merged, ColumnSet.get?_insert, ColumnSet.get?_merge]
    rfl
  · rw [merged]
    exact ColumnSet.nodup_insert (ColumnSet.nodup_merge _) _
  · rw [merged, ColumnSet.known_insert, ColumnSet.known_merge]
  · have outputs : (command.branchOutputs snapshot input).Perm
        (other.branchOutputs snapshot input) := same.map _
    rw [output_eq_forked fork, output_eq_forked forks]
    exact ⟨fun name => (ColumnSet.forked_perm given outputs name).1,
      (ColumnSet.forked_perm given outputs "").2⟩

/-- Three branches, of which one is not known to its end and one makes a column of the tag's name. -/
theorem output_fork_three :
    ∃ command ∈ (parse ("FROM a | FORK (EVAL y = 1 | KEEP y, x) (ENRICH p) "
        ++ "(EVAL _fork = 2, y = \"s\" | DROP x)")).pipeline.commands,
      command.name = "fork" ∧ command.branches ≠ [] ∧
        (command.output {} (.ofFields [⟨"x", some .long, false⟩, ⟨"z", none, false⟩])).names =
          ["y", "x", "z", "_fork"] ∧
        (command.output {} (.ofFields [⟨"x", some .long, false⟩, ⟨"z", none, false⟩])).type? "y" =
          some .integer ∧
        (command.output {} (.ofFields [⟨"x", some .long, false⟩, ⟨"z", none, false⟩])).known =
          false := by
  have shape : (parse ("FROM a | FORK (EVAL y = 1 | KEEP y, x) (ENRICH p) "
      ++ "(EVAL _fork = 2, y = \"s\" | DROP x)")).pipeline.commands.any (fun command =>
        command.name == "fork" && !command.branches.isEmpty &&
          (command.branchOutputs {} (.ofFields
            [⟨"x", some .long, false⟩, ⟨"z", none, false⟩])).flatMap ColumnSet.names ==
              ["y", "x", "x", "z", "z", "_fork", "y"] &&
          ((command.branchOutputs {} (.ofFields
            [⟨"x", some .long, false⟩, ⟨"z", none, false⟩])).findSome? (·.get? "y")).bind
              (·.type?) == some .integer &&
          !(command.branchOutputs {} (.ofFields
            [⟨"x", some .long, false⟩, ⟨"z", none, false⟩])).all (·.known)) = true := by
    decide +kernel
  obtain ⟨command, member, facts⟩ := List.any_eq_true.mp shape
  simp only [Bool.and_eq_true, beq_iff_eq, Bool.not_eq_true', List.isEmpty_eq_false_iff] at facts
  obtain ⟨⟨⟨⟨fork, branched⟩, listed⟩, typed⟩, unknown⟩ := facts
  obtain ⟨names, found, -, known, -⟩ := output_fork fork branched {}
    (.ofFields [⟨"x", some .long, false⟩, ⟨"z", none, false⟩])
  refine ⟨command, member, fork, branched, ?_, ?_, ?_⟩
  · rw [names, listed]
    decide
  · rw [ColumnSet.type?, found, if_neg (by decide)]
    exact typed
  · rw [Bool.eq_false_iff, ne_eq, known, ← List.all_eq_true, unknown]
    exact Bool.false_ne_true

/-- A branch without its closing parenthesis is known to its end, but the columns behind the fork
are not: the fork was not read to its end. -/
theorem not_known_after_fork :
    ¬ ∀ (command : Command) (snapshot : Snapshot) (input : ColumnSet), command.name = "fork" →
      command.branches ≠ [] → input.names.Nodup →
      ((command.after snapshot input).known = true ↔
        ∀ output ∈ command.branchOutputs snapshot input, output.known = true) := by
  intro claimed
  have shape : (parse "FROM a | FORK (LIMIT 1").pipeline.commands.any (fun command =>
      command.name == "fork" && !command.branches.isEmpty &&
        !(command.after {} (.ofFields [⟨"x", some .long, false⟩])).known &&
        (command.branchOutputs {} (.ofFields [⟨"x", some .long, false⟩])).all (·.known)) = true := by
    decide +kernel
  obtain ⟨command, -, facts⟩ := List.any_eq_true.mp shape
  simp only [Bool.and_eq_true, beq_iff_eq, Bool.not_eq_true', List.isEmpty_eq_false_iff] at facts
  obtain ⟨⟨⟨fork, branched⟩, unknown⟩, known⟩ := facts
  have made := (claimed command {} (.ofFields [⟨"x", some .long, false⟩]) fork branched
    (by decide)).mpr (List.all_eq_true.mp known)
  exact Bool.false_ne_true (unknown.symm.trans made)

end Command

end Esql
