import DataRules.Rule.Basic
import DataRules.Value.Equality

set_option autoImplicit false

/-!
# Rule: matching rules against patterns

A pattern is a value in which some texts are placeholders: `"@"` matches
anything, `"number"`, `"string"` and `"array"` match by kind, and the operator
`"@"` matches every operator.  A rule fits a pattern when it equals it, when a
placeholder admits it, or when the two are operations or lists whose parts fit.
Operands are matched as they stand, so that `"@"` can stand for all the
arguments of an operation at once.
-/

namespace DataRules.Pattern

/-- The operator that matches every operator, and the text that matches every
rule. -/
def wildcard : String := "@"

/-- The rule is of the kind that a placeholder names; a text that is no
placeholder admits nothing. -/
def admits (placeholder : String) : Value → Bool
  | .number _ => placeholder = wildcard || placeholder = "number"
  | .text _ => placeholder = wildcard || placeholder = "string"
  | .list _ => placeholder = wildcard || placeholder = "array"
  | _ => placeholder = wildcard

mutual

/-- The rule has the form that the pattern describes. -/
def fits : Value → Value → Bool
  | .text s, rule => (Value.text s).equals rule || admits s rule
  | .list patterns, .list rules =>
      (Value.list patterns).equals (.list rules) || fitEach patterns rules
  | .object [(operator, operand)], .object [(ruleOperator, ruleOperand)] =>
      (Value.object [(operator, operand)]).equals (.object [(ruleOperator, ruleOperand)]) ||
        ((operator = wildcard || operator = ruleOperator) && fits operand ruleOperand)
  | pattern, rule => pattern.equals rule

/-- As many rules as patterns, each rule fitting the pattern at its position. -/
def fitEach : List Value → List Value → Bool
  | [], [] => true
  | pattern :: patterns, rule :: rules => fits pattern rule && fitEach patterns rules
  | _, _ => false

end

/-- A rule that equals the pattern fits it. -/
theorem fits_of_equals {pattern rule : Value} (h : pattern.equals rule = true) :
    fits pattern rule = true := by
  unfold fits
  split <;> simp_all

end DataRules.Pattern
