import DataRules.Rule.Basic

set_option autoImplicit false

/-!
# Rule: the data paths of a rule

Which data a rule reads can be told without evaluating it, as far as its paths
are written out: the first argument of each `var` counts when it is a text or a
number.  A path that is computed is skipped, and what computes it is not
searched.  Lists are searched only as the arguments of an operation.  Each path
is named once, where it first comes up.
-/

namespace DataRules.Rule

/-- The operator that reads data at a path. -/
def varOperator : String := "var"

/-- The path that the arguments of a `var` spell out. -/
def writtenPath? : List Rule → Option String
  | .literal (.text s) :: _ => some s
  | .literal (.number n) :: _ => some n.text
  | _ => none

/-- The paths with one more at the end, unless it is there already. -/
def addPath (path : String) (seen : List String) : List String :=
  if path ∈ seen then seen else seen ++ [path]

mutual

/-- The paths seen so far, and those of a rule after them. -/
def addPaths : Rule → List String → List String
  | .literal _, seen => seen
  | .list _, seen => seen
  | .operation operator args, seen =>
      if operator = varOperator then
        match writtenPath? args with
        | some path => addPath path seen
        | none => seen
      else addAllPaths args seen

/-- The paths seen so far, and those of some rules after them, rule by rule. -/
def addAllPaths : List Rule → List String → List String
  | [], seen => seen
  | rule :: rules, seen => addAllPaths rules (addPaths rule seen)

end

/-- The data paths that a rule reads, in the order in which they first come up. -/
def paths (rule : Rule) : List String := rule.addPaths []

theorem mem_addPath {path p : String} {seen : List String} :
    p ∈ addPath path seen ↔ p ∈ seen ∨ p = path := by
  unfold addPath
  split
  · next h => exact ⟨.inl, fun hp => hp.elim id fun e => e ▸ h⟩
  · simp

/-! ## Which paths are listed -/

mutual

/-- What was seen before a rule only adds to the paths of the rule. -/
theorem mem_addPaths {p : String} : (rule : Rule) → (seen : List String) →
    (p ∈ rule.addPaths seen ↔ p ∈ seen ∨ p ∈ rule.paths)
  | .literal _, seen => by simp [paths, addPaths]
  | .list _, seen => by simp [paths, addPaths]
  | .operation operator args, seen => by
      rw [paths, addPaths, addPaths]
      split
      · split
        · rw [mem_addPath, mem_addPath]
          simp
        · simp
      · rw [mem_addAllPaths args seen, mem_addAllPaths args []]
        simp

theorem mem_addAllPaths {p : String} : (rules : List Rule) → (seen : List String) →
    (p ∈ addAllPaths rules seen ↔ p ∈ seen ∨ ∃ rule ∈ rules, p ∈ rule.paths)
  | [], seen => by simp [addAllPaths]
  | rule :: rules, seen => by
      rw [addAllPaths, mem_addAllPaths rules, mem_addPaths rule seen, or_assoc]
      simp only [List.mem_cons, exists_eq_or_imp]

end

/-- An operation other than `var` reads what its arguments read. -/
theorem mem_paths_operation {operator : String} (h : operator ≠ varOperator) {args : List Rule}
    {p : String} : p ∈ (operation operator args).paths ↔ ∃ arg ∈ args, p ∈ arg.paths := by
  rw [paths, addPaths, if_neg h, mem_addAllPaths]
  simp

/-- A `var` reads the path that its first argument spells out. -/
theorem paths_var {args : List Rule} {path : String} (h : writtenPath? args = some path) :
    (operation varOperator args).paths = [path] := by
  rw [paths, addPaths, if_pos rfl, h]
  rfl

end DataRules.Rule
