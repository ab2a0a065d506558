import DataRules.Eval.Builtin
import DataRules.Eval.Control
import DataRules.Rule.Basic
import DataRules.Value.Path

set_option autoImplicit false

/-!
# Eval: the meaning of rules

A literal means itself, a list means the list of what its items mean, and an
operation means what its operator makes of the meanings of its arguments.  The
evaluator owns the operators for control, iteration and data access; any other
operator is looked up in a registry and given the values of its arguments.  Data
is never read as a rule: a meaning is built from the rule alone.
-/

namespace DataRules

/-- The operators that belong to the evaluator; a registry cannot replace them. -/
inductive Keyword where
  | choose
  | conjunction
  | disjunction
  | filter
  | map
  | reduce
  | forAll
  | forNone
  | forSome
  | var
  | missing
  | missingSome
  deriving DecidableEq, Repr

namespace Keyword

variable {σ : Type}

/-- The evaluator's operators under their names. -/
def table : List (String × Keyword) :=
  [("if", .choose), ("?:", .choose), ("and", .conjunction), ("or", .disjunction),
   ("filter", .filter), ("map", .map), ("reduce", .reduce), ("all", .forAll),
   ("none", .forNone), ("some", .forSome), ("var", .var), ("missing", .missing),
   ("missing_some", .missingSome)]

/-- The names of the evaluator's operators alone. -/
def names : List String := table.map Prod.fst

/-- The operator of the evaluator with a name. -/
def ofName? (name : String) : Option Keyword := table.lookup name

theorem ofName?_eq_none_iff {name : String} : ofName? name = none ↔ name ∉ names := by
  rw [ofName?, names, List.lookup_eq_none_iff, List.mem_map]
  constructor
  · rintro h ⟨entry, hentry, rfl⟩
    exact absurd (h entry hentry) (by simp)
  · intro h entry hentry
    rw [bne_iff_ne]
    rintro rfl
    exact h ⟨entry, hentry, rfl⟩

/-- A reading of the data context with the values of the arguments. -/
def reading (f : Value → List Value → Value) (args : List (Meaning σ)) : Meaning σ :=
  fun data => do return f data (← Control.evaluateAll args data)

/-- What an operator makes of the meanings of its arguments. -/
def meaning : Keyword → List (Meaning σ) → Meaning σ
  | .choose => Control.choose
  | .conjunction => Control.conjunction
  | .disjunction => Control.disjunction
  | .filter => Control.filter
  | .map => Control.map
  | .reduce => Control.reduce
  | .forAll => Control.forAll
  | .forNone => Control.forNone
  | .forSome => Control.forSome
  | .var => reading Value.read
  | .missing => reading Value.missing
  | .missingSome => reading Value.missingSome

end Keyword

namespace Registry

variable {σ : Type}

/-- What the operator of a name makes of the meanings of its arguments. -/
def operator (registry : Registry σ) (name : String) (args : List (Meaning σ)) : Meaning σ :=
  match Keyword.ofName? name with
  | some keyword => keyword.meaning args
  | none => fun data => do registry.invoke name data (← Control.evaluateAll args data)

mutual

/-- What a rule means over a registry. -/
def meaning (registry : Registry σ) : Rule → Meaning σ
  | .literal v => fun _ => pure v
  | .list items =>
      let meanings := registry.meanings items
      fun data => return .list (← Control.evaluateAll meanings data)
  | .operation name args => registry.operator name (registry.meanings args)

/-- What some rules mean over a registry. -/
def meanings (registry : Registry σ) : List Rule → List (Meaning σ)
  | [] => []
  | rule :: rules => registry.meaning rule :: registry.meanings rules

end

/-- The evaluation of a value, read as a rule, on a data context. -/
def apply (registry : Registry σ) (rule data : Value) : Eval σ Value :=
  registry.meaning (Rule.ofValue rule) data

theorem meanings_eq_map (registry : Registry σ) (rules : List Rule) :
    registry.meanings rules = rules.map registry.meaning := by
  induction rules with
  | nil => rfl
  | cons rule rules ih => simp [meanings, ih]

/-- An operation is evaluated by its operator, on its operand's items as arguments. -/
theorem apply_operation (registry : Registry σ) (name : String) (operand data : Value) :
    registry.apply (.object [(name, operand)]) data =
      registry.operator name (operand.asList.map registry.apply) data := by
  rw [apply, Rule.ofValue_operation, meaning, meanings_eq_map, List.map_map]
  rfl

end Registry

end DataRules
