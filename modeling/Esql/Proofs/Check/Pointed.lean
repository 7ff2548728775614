import Esql.Check.Expression
import Esql.Proofs.Syntax.Visited

/-!
# What expressions are told

Everything that is said of an expression is a finding about one of its nodes: that a column is
missing or not supported, that a function or a unit does not exist, or that a call is not in order.
What a call adds to what is said of its arguments is of the last kind, told of the call itself or of
an argument.
-/

namespace Esql

/-- The finding is about the way in which something is called. -/
def Finding.isOfCall : Finding → Bool
  | .wrongArgumentNumber .. | .wrongArgumentType .. | .expectedConstant ..
  | .unsupportedLiteralOption .. | .unsupportedFunction .. | .unsupportedFunctionInClause ..
  | .nestedAggregation .. | .licenseRequired .. | .licenseRequiredForSignature .. => true
  | _ => false

/-- The finding is about a column, a function or a unit, or about the way in which something is
called. -/
def Finding.isOfExpr : Finding → Bool
  | .unknownColumn _ | .unsupportedField _ | .unknownFunction _ | .unknownInterval _ => true
  | finding => finding.isOfCall

theorem Finding.isOfExpr_of_isOfCall {finding : Finding} (call : finding.isOfCall = true) :
    finding.isOfExpr = true := by
  rw [isOfExpr.eq_def]
  split <;> first | rfl | exact call

/-- All diagnostics are findings about calls, at some spans. -/
def OfCall (spans : List Span) (found : List Diagnostic) : Prop :=
  ∀ diagnostic ∈ found, ∃ finding : Finding, finding.isOfCall = true ∧
    ∃ span ∈ spans, diagnostic = finding.about span

namespace OfCall

variable {spans : List Span}

theorem nil : OfCall spans [] := nofun

theorem single {finding : Finding} {span : Span} (call : finding.isOfCall = true)
    (member : span ∈ spans) : OfCall spans [finding.about span] :=
  List.forall_mem_singleton.mpr ⟨finding, call, span, member, rfl⟩

end OfCall

namespace Callable

variable (callable : Callable) (scope : Scope) {spans : List Span}

theorem ofCall_checkPlace (place : Place) {span : Span} (member : span ∈ spans) :
    OfCall spans (callable.checkPlace scope place span) := by
  rw [checkPlace]
  split
  · exact .nil
  · split <;> exact .single rfl member

theorem ofCall_checkNesting (outer? : Option String) {extent : Extent}
    (member : extent.span ∈ spans) : OfCall spans (callable.checkNesting outer? extent) := by
  cases outer? with
  | none => exact .nil
  | some outer =>
      rw [checkNesting]
      split
      · exact .single rfl member
      · exact .nil

theorem ofCall_checkLicense (signature : Signature) {span : Span} (member : span ∈ spans) :
    OfCall spans (callable.checkLicense scope signature span) := by
  rw [checkLicense]
  split
  · exact .single rfl member
  · exact .single rfl member
  · exact .nil

theorem ofCall_checkCall {args : List Expr} (givens : List Given) {span : Span}
    (member : span ∈ spans) (parts : ∀ argument ∈ args, argument.span ∈ spans) :
    OfCall spans (callable.checkCall scope args givens span) := by
  have argument {position : Nat} {argument : Expr} (found : args[position]? = some argument) :
      argument.span ∈ spans :=
    parts argument (List.mem_of_getElem? found)
  rw [checkCall]
  split
  · exact callable.ofCall_checkLicense scope _ member
  · exact .single rfl member
  · split
    · rename_i found _
      exact .single rfl (argument found)
    · exact .nil
  · split
    · rename_i found
      exact .single rfl (argument found)
    · exact .nil
  · split
    · rename_i found
      exact .single rfl (argument found)
    · exact .nil

end Callable

/-- All diagnostics are findings about expressions, told of some nodes. -/
def Pointed (nodes : List Expr) (found : List Diagnostic) : Prop :=
  ∀ diagnostic ∈ found, ∃ finding : Finding, finding.isOfExpr = true ∧
    ∃ node ∈ nodes, diagnostic = finding.about node.span

namespace Pointed

variable {nodes more : List Expr} {first second : List Diagnostic}

theorem nil : Pointed nodes [] := nofun

theorem append (here : Pointed nodes first) (there : Pointed nodes second) :
    Pointed nodes (first ++ second) :=
  List.forall_mem_append.mpr ⟨here, there⟩

theorem cons {finding : Finding} (told : finding.isOfExpr = true) {node : Expr}
    (member : node ∈ nodes) (rest : Pointed nodes first) :
    Pointed nodes (finding.about node.span :: first) :=
  List.forall_mem_cons.mpr ⟨⟨finding, told, node, member, rfl⟩, rest⟩

theorem single {finding : Finding} (told : finding.isOfExpr = true) {node : Expr}
    (member : node ∈ nodes) : Pointed nodes [finding.about node.span] :=
  cons told member nil

theorem mono (pointed : Pointed nodes first) (fewer : nodes ⊆ more) : Pointed more first := by
  intro diagnostic found
  obtain ⟨finding, told, node, member, same⟩ := pointed diagnostic found
  exact ⟨finding, told, node, fewer member, same⟩

theorem of_ofCall (told : OfCall (nodes.map Expr.span) first) : Pointed nodes first := by
  intro diagnostic found
  obtain ⟨finding, call, span, member, same⟩ := told diagnostic found
  obtain ⟨node, inside, rfl⟩ := List.mem_map.mp member
  exact ⟨finding, Finding.isOfExpr_of_isOfCall call, node, inside, same⟩

end Pointed

theorem Scope.pointed_checkValue (scope : Scope) {column : Column} {nodes : List Expr}
    (member : Expr.column column ∈ nodes) : Pointed nodes (scope.checkValue column) := by
  rw [checkValue, checkColumn]
  split
  · exact Pointed.single rfl member
  · split
    · exact Pointed.single rfl member
    · exact .nil

namespace Expr

mutual

/-- Everything that is said of an expression is said of one of its nodes. -/
theorem pointed_check (expr : Expr) (scope : Scope) (place : Place) (outer? : Option String) :
    Pointed expr.walk (expr.check scope place outer?) := by
  cases expr with
  | literal l => exact .nil
  | column c =>
      rw [check]
      split
      · exact .nil
      · exact scope.pointed_checkValue (mem_walk _)
  | interval i =>
      rw [check]
      split
      · exact .nil
      · exact Pointed.single rfl (mem_walk (.interval i))
  | list items extent =>
      rw [check]
      split
      · exact .nil
      · exact (pointed_checkAll items scope place outer? none).mono
          (walkAll_subset_walk (.list items extent))
  | cast value target extent =>
      rw [check]
      split
      · exact .nil
      · exact (pointed_check value scope place outer?).mono (walk_subset_of_child (.head _))
  | apply name form args extent =>
      rw [check.eq_def]
      dsimp only
      split
      · exact .nil
      · split
        · match args with
          | [] => exact .nil
          | [_] => exact .nil
          | _ :: value :: _ =>
              exact (pointed_check value scope place outer?).mono
                (walk_subset_of_child (.tail _ (.head _)))
        · split
          · match args with
            | [] => exact .nil
            | [filtered] =>
                exact (pointed_check filtered scope place outer?).mono
                  (walk_subset_of_child (.head _))
            | filtered :: condition :: _ =>
                exact .append
                  ((pointed_check filtered scope place outer?).mono
                    (walk_subset_of_child (.head _)))
                  ((pointed_check condition scope .statsWhere outer?).mono
                    (walk_subset_of_child (.tail _ (.head _))))
          · have whole : Expr.apply name form args extent ∈
                (Expr.apply name form args extent).walk := mem_walk _
            have call : extent.span ∈ (Expr.apply name form args extent).walk.map span :=
              List.mem_map_of_mem whole
            have parts : ∀ argument ∈ args,
                argument.span ∈ (Expr.apply name form args extent).walk.map span :=
              fun argument member =>
                List.mem_map_of_mem (walk_subset_of_child member argument.mem_walk)
            have inside (outer? function? : Option String) :
                Pointed (Expr.apply name form args extent).walk
                  (checkAll scope place outer? function? args) :=
              (pointed_checkAll args scope place outer? function?).mono
                (walkAll_subset_walk (.apply name form args extent))
            split
            · exact Pointed.cons rfl whole (inside outer? none)
            · rename_i callable _
              exact .append (.append (.append
                (.of_ofCall (callable.ofCall_checkPlace scope place call))
                (.of_ofCall (callable.ofCall_checkNesting outer? call)))
                (inside (callable.around outer?) (some name)))
                (.of_ofCall (callable.ofCall_checkCall scope _ call parts))

theorem pointed_checkAll (exprs : List Expr) (scope : Scope) (place : Place)
    (outer? function? : Option String) :
    Pointed (walkAll exprs) (checkAll scope place outer? function? exprs) := by
  cases exprs with
  | nil => exact .nil
  | cons expr rest =>
      rw [checkAll, walkAll]
      refine .append ?_ ((pointed_checkAll rest scope place outer? function?).mono
        (List.subset_append_right _ _))
      split
      · exact .nil
      · exact (pointed_check expr scope place outer?).mono (List.subset_append_left _ _)

end

end Expr

end Esql
