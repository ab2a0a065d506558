import DataRules.Value.Basic

set_option autoImplicit false

/-!
# Rule: values read as rules

Every value is a rule.  An object with exactly one field is an operation, whose
key is the operator and whose field is the operand, the items of a list being
the arguments and anything else the only one; a list is a list of rules; and
anything else stands for itself.  `Value.shape` classifies a value at its
top, and `Rule.ofValue` does so all the way down, as far as rules reach: not into
objects with several fields, and not into what an operation is given as data.
-/

namespace DataRules

/-- What a value is as a rule, its parts still being values. -/
inductive Shape where
  | literal (v : Value)
  | list (items : List Value)
  | operation (operator : String) (args : List Value)

namespace Value

/-- The operator and the operand of an operation, as they stand. -/
def operation? : Value → Option (String × Value)
  | .object [(operator, operand)] => some (operator, operand)
  | _ => none

/-- The value is an operation. -/
def isOperation (v : Value) : Bool := v.operation?.isSome

/-- What the value is as a rule. -/
def shape : Value → Shape
  | .list items => .list items
  | v =>
      match v.operation? with
      | some (operator, operand) => .operation operator operand.asList
      | none => .literal v

end Value

/-- A rule with its operations laid open. -/
inductive Rule where
  | literal (v : Value)
  | list (items : List Rule)
  | operation (operator : String) (args : List Rule)
  deriving Inhabited

namespace Rule

mutual

/-- The rule that a value is. -/
def ofValue : Value → Rule
  | .list items => .list (ofValues items)
  | .object [(operator, .list operand)] => .operation operator (ofValues operand)
  | .object [(operator, operand)] => .operation operator [ofValue operand]
  | v => .literal v

/-- The rules that some values are. -/
def ofValues : List Value → List Rule
  | [] => []
  | v :: vs => ofValue v :: ofValues vs

end

theorem ofValues_eq_map (vs : List Value) : ofValues vs = vs.map ofValue := by
  induction vs with
  | nil => rfl
  | cons v vs ih => simp [ofValues, ih]

/-- The arguments of an operation are its operand's, read as rules. -/
theorem ofValue_operation (operator : String) (operand : Value) :
    ofValue (.object [(operator, operand)]) =
      .operation operator (operand.asList.map ofValue) := by
  cases operand <;> simp [ofValue, Value.asList, ofValues_eq_map]

/-- A value is read as its shape says. -/
theorem ofValue_eq_shape (v : Value) :
    ofValue v =
      match v.shape with
      | .literal w => .literal w
      | .list items => .list (items.map ofValue)
      | .operation operator args => .operation operator (args.map ofValue) := by
  cases v with
  | list items => simp [ofValue, Value.shape, ofValues_eq_map]
  | object fields =>
      rcases fields with _ | ⟨⟨operator, operand⟩, _ | ⟨_, _⟩⟩
      · rfl
      · simpa [Value.shape, Value.operation?] using ofValue_operation operator operand
      · cases operand <;> rfl
  | _ => rfl

end Rule

end DataRules
