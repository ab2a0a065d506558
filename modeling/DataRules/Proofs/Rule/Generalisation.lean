import DataRules.Rule.Pattern
import Mathlib.Data.List.Forall2

set_option autoImplicit false

/-!
# Generalisation: patterns that match more

A pattern becomes more general when parts of it give way to placeholders.
`Generalises` says which parts may, and at which positions: those that the
matcher itself descends to, the items of lists and the operands of operations.
The main fact is that a rule which fits a pattern fits every generalisation of
it.

The matcher accepts a rule that equals the pattern before it looks at the parts.
A generalised pattern no longer equals the rule, so the parts have to be matched
after all: `fits_list_iff` and `fits_operation_iff` say that for lists and
operations the equality adds nothing to the match of the parts.
-/

namespace DataRules.Pattern

/-! ## Lists and operations match by their parts -/

theorem fitEach_of_equalItems : {patterns rules : List Value} →
    Value.equalItems patterns rules = true → fitEach patterns rules = true
  | [], [], _ => rfl
  | [], _ :: _, h => by cases h
  | _ :: _, [], h => by cases h
  | pattern :: patterns, rule :: rules, h => by
      rw [Value.equalItems, Bool.and_eq_true] at h
      rw [fitEach, Bool.and_eq_true]
      exact ⟨fits_of_equals h.1, fitEach_of_equalItems h.2⟩

/-- A list is fitted by lists alone, item by item. -/
theorem fits_list_iff {patterns : List Value} {rule : Value} :
    fits (.list patterns) rule = true ↔
      ∃ rules, rule = .list rules ∧ fitEach patterns rules = true := by
  constructor
  · intro h
    cases rule with
    | list rules =>
        rw [fits, Bool.or_eq_true] at h
        have hparts : fitEach patterns rules = true := by
          rcases h with hequal | hfit
          · rw [Value.equals] at hequal
            exact fitEach_of_equalItems hequal
          · exact hfit
        exact ⟨rules, rfl, hparts⟩
    | _ => simp [fits, Value.equals] at h
  · rintro ⟨rules, rfl, h⟩
    rw [fits, h, Bool.or_true]

/-- An operation is fitted by operations alone, the operator being named or left
open, and the operand fitting. -/
theorem fits_operation_iff {operator : String} {operand rule : Value} :
    fits (.object [(operator, operand)]) rule = true ↔
      ∃ ruleOperator ruleOperand, rule = .object [(ruleOperator, ruleOperand)] ∧
        (operator = wildcard ∨ operator = ruleOperator) ∧ fits operand ruleOperand = true := by
  constructor
  · intro h
    rcases rule with _ | _ | _ | _ | _ | fields
    case object =>
      rcases fields with _ | ⟨⟨ruleOperator, ruleOperand⟩, _ | ⟨_, _⟩⟩
      · simp [fits, Value.equals, Value.equalFields] at h
      · refine ⟨ruleOperator, ruleOperand, rfl, ?_⟩
        rw [fits, Bool.or_eq_true] at h
        rcases h with hequal | hfit
        · simp only [Value.equals, Value.equalFields, Bool.and_eq_true, beq_iff_eq] at hequal
          exact ⟨.inr hequal.1.1, fits_of_equals hequal.1.2⟩
        · simpa using hfit
      · simp [fits, Value.equals, Value.equalFields] at h
    all_goals simp [fits, Value.equals] at h
  · rintro ⟨ruleOperator, ruleOperand, rfl, hoperator, hoperand⟩
    rw [fits, hoperand, Bool.and_true, Bool.or_eq_true]
    exact .inr (by simpa using hoperator)

/-! ## Placeholders -/

theorem admits_wildcard (rule : Value) : admits wildcard rule = true := by
  cases rule <;> simp [admits]

/-- A text that is no placeholder is fitted by itself alone. -/
theorem fits_text_iff {s : String} (h : s ∉ [wildcard, "number", "string", "array"])
    {rule : Value} : fits (.text s) rule = true ↔ rule = .text s := by
  simp only [List.mem_cons, List.not_mem_nil, not_or, or_false] at h
  obtain ⟨hwildcard, hnumber, hstring, harray⟩ := h
  cases rule with
  | text t =>
      have hadmits : admits s (.text t) = false := by simp [admits, hwildcard, hstring]
      rw [fits, hadmits, Bool.or_false, Value.equals, beq_iff_eq, Value.text.injEq, eq_comm]
  | _ => simp [fits, Value.equals, admits, hwildcard, hnumber, harray]

/-- A number is fitted by numbers alone. -/
theorem isNumber_of_fits {n : Number} {rule : Value} (h : fits (.number n) rule = true) :
    ∃ m, rule = .number m := by
  cases rule with
  | number m => exact ⟨m, rfl⟩
  | _ => simp [fits, Value.equals] at h

/-! ## More general patterns -/

/-- The second pattern is the first one with parts replaced by placeholders. -/
inductive Generalises : Value → Value → Prop where
  /-- nothing is replaced -/
  | refl (pattern : Value) : Generalises pattern pattern
  /-- anything becomes the placeholder for anything -/
  | any (pattern : Value) : Generalises pattern (.text wildcard)
  /-- a number becomes the placeholder for numbers -/
  | number (n : Number) : Generalises (.number n) (.text "number")
  /-- a text that is no placeholder becomes the placeholder for texts -/
  | text {s : String} (hplain : s ∉ [wildcard, "number", "string", "array"]) :
      Generalises (.text s) (.text "string")
  /-- a list becomes the placeholder for lists -/
  | array (patterns : List Value) : Generalises (.list patterns) (.text "array")
  /-- the items of a list are generalised -/
  | list {patterns generals : List Value} (hitems : List.Forall₂ Generalises patterns generals) :
      Generalises (.list patterns) (.list generals)
  /-- the operand of an operation is generalised, the operator staying as it is -/
  | operand {operator : String} {operand general : Value} (hoperand : Generalises operand general) :
      Generalises (.object [(operator, operand)]) (.object [(operator, general)])
  /-- the operator of an operation is left open, and the operand generalised -/
  | operator {operator : String} {operand general : Value}
      (hoperand : Generalises operand general) :
      Generalises (.object [(operator, operand)]) (.object [(wildcard, general)])

mutual

private theorem fits_general : {pattern general : Value} → Generalises pattern general →
    ∀ {rule : Value}, fits pattern rule = true → fits general rule = true
  | _, _, .refl _, _, hfits => hfits
  | _, _, .any _, rule, _ => by
      rw [fits, admits_wildcard, Bool.or_true]
  | _, _, .number n, rule, hfits => by
      obtain ⟨m, rfl⟩ := isNumber_of_fits hfits
      simp [fits, admits]
  | _, _, .text hplain, rule, hfits => by
      obtain rfl := (fits_text_iff hplain).mp hfits
      simp [fits, admits]
  | _, _, .array patterns, rule, hfits => by
      obtain ⟨rules, rfl, -⟩ := fits_list_iff.mp hfits
      simp [fits, admits]
  | _, _, .list hitems, rule, hfits => by
      obtain ⟨rules, rfl, heach⟩ := fits_list_iff.mp hfits
      exact fits_list_iff.mpr ⟨rules, rfl, fitEach_general hitems heach⟩
  | _, _, .operand hoperand, rule, hfits => by
      obtain ⟨ruleOperator, ruleOperand, rfl, hoperator, hfit⟩ := fits_operation_iff.mp hfits
      have hgeneral := fits_general hoperand hfit
      exact fits_operation_iff.mpr ⟨ruleOperator, ruleOperand, rfl, hoperator, hgeneral⟩
  | _, _, .operator hoperand, rule, hfits => by
      obtain ⟨ruleOperator, ruleOperand, rfl, -, hfit⟩ := fits_operation_iff.mp hfits
      have hgeneral := fits_general hoperand hfit
      exact fits_operation_iff.mpr ⟨ruleOperator, ruleOperand, rfl, .inl rfl, hgeneral⟩

private theorem fitEach_general : {patterns generals : List Value} →
    List.Forall₂ Generalises patterns generals →
    ∀ {rules : List Value}, fitEach patterns rules = true → fitEach generals rules = true
  | _, _, .nil, _, h => h
  | _, _, .cons _ _, [], h => by cases h
  | _, _, .cons hfirst hrest, rule :: rules, h => by
      rw [fitEach, Bool.and_eq_true] at h
      have hrule := fits_general hfirst h.1
      have hrules := fitEach_general hrest h.2
      rw [fitEach, hrule, hrules, Bool.and_true]

end

/-- A rule that fits a pattern fits every generalisation of the pattern. -/
theorem fits_of_generalises {pattern general rule : Value} (h : Generalises pattern general)
    (hfits : fits pattern rule = true) : fits general rule = true :=
  fits_general h hfits

/-- A product of a rate and a reading, written out. -/
def taxRule : Value :=
  .object [("*", .list [.number (.int 2), .object [("var", .text "goods")]])]

/-- The rule fits itself, and so the pattern with the operator, the rate and the
path left open. -/
theorem fits_of_generalises_taxRule :
    Generalises taxRule
      (.object [("@", .list [.text "number", .object [("var", .text "string")]])]) ∧
    fits taxRule taxRule = true ∧
    fits (.object [("@", .list [.text "number", .object [("var", .text "string")]])]) taxRule =
      true := by
  have hreading : Generalises (.object [("var", .text "goods")])
      (.object [("var", .text "string")]) := .operand (.text (by decide))
  have h : Generalises taxRule
      (.object [("@", .list [.text "number", .object [("var", .text "string")]])]) :=
    .operator (.list (.cons (.number _) (.cons hreading .nil)))
  have hfits : fits taxRule taxRule = true := by rfl
  exact ⟨h, hfits, fits_of_generalises h hfits⟩

end DataRules.Pattern
