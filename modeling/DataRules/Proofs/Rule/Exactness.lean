import DataRules.Proofs.Eval.Dispatch
import DataRules.Proofs.Rule.Generalisation

set_option autoImplicit false

/-!
# Exactness: patterns without placeholders

A pattern in which no placeholder stands at a position that the matcher reaches
describes one rule only: a rule fits it when the two are equal.  Positions are
those of rules, the items of lists and the operands of operations, so an object
with several fields may hold placeholder words as it likes.

The matcher tries equality first and falls back on the parts.  The fallback
could only let in more rules; by induction on the pattern it does not, since the
parts of such a pattern are without placeholders again.
-/

namespace DataRules.Pattern

/-- No placeholder stands where the matcher looks for one: neither a text that
admits rules by their kind, nor the operator that matches every operator. -/
structure Exact (pattern : Value) : Prop where
  texts : ∀ s, pattern.Reaches (.text s) → s ∉ [wildcard, "number", "string", "array"]
  operators : ¬pattern.Mentions wildcard

theorem exact_text_iff {s : String} :
    Exact (.text s) ↔ s ∉ [wildcard, "number", "string", "array"] := by
  constructor
  · intro h
    exact h.texts s (.self _)
  · intro h
    refine ⟨?_, ?_⟩
    · rintro _ ⟨⟩
      exact h
    · rintro ⟨_, ⟨⟩⟩

/-- A list is without placeholders when its items are. -/
theorem exact_list_iff {patterns : List Value} :
    Exact (.list patterns) ↔ ∀ pattern ∈ patterns, Exact pattern := by
  constructor
  · intro h pattern hmem
    refine ⟨?_, ?_⟩
    · intro s hreaches
      exact h.texts s (.item hmem hreaches)
    · rintro ⟨operand, hreaches⟩
      exact h.operators ⟨operand, .item hmem hreaches⟩
  · intro h
    refine ⟨?_, ?_⟩
    · rintro s (_ | ⟨hmem, hreaches⟩)
      exact (h _ hmem).texts s hreaches
    · rintro ⟨operand, (_ | ⟨hmem, hreaches⟩)⟩
      exact (h _ hmem).operators ⟨operand, hreaches⟩

/-- An operation is without placeholders when its operator and its operand are. -/
theorem exact_operation_iff {operator : String} {operand : Value} :
    Exact (.object [(operator, operand)]) ↔ operator ≠ wildcard ∧ Exact operand := by
  constructor
  · intro h
    refine ⟨?_, ?_, ?_⟩
    · rintro rfl
      exact h.operators ⟨operand, .self _⟩
    · intro s hreaches
      exact h.texts s (.operand hreaches)
    · rintro ⟨inner, hreaches⟩
      exact h.operators ⟨inner, .operand hreaches⟩
  · rintro ⟨hoperator, h⟩
    refine ⟨?_, ?_⟩
    · rintro s (_ | _ | hreaches)
      exact h.texts s hreaches
    · rintro ⟨inner, (_ | _ | hreaches)⟩
      · exact hoperator rfl
      · exact h.operators ⟨inner, hreaches⟩

/-- The matcher does not look into an object with several fields. -/
theorem exact_fields (first second : String × Value) (rest : List (String × Value)) :
    Exact (.object (first :: second :: rest)) :=
  ⟨by rintro _ ⟨⟩, by rintro ⟨_, ⟨⟩⟩⟩

/-! ## Equality of lists and operations, by their parts -/

theorem equals_list_iff {patterns : List Value} {rule : Value} :
    (Value.list patterns).equals rule = true ↔
      ∃ rules, rule = .list rules ∧ Value.equalItems patterns rules = true := by
  cases rule with
  | list rules => simp [Value.equals]
  | _ => simp [Value.equals]

theorem equals_operation_iff {operator : String} {operand rule : Value} :
    (Value.object [(operator, operand)]).equals rule = true ↔
      ∃ ruleOperand, rule = .object [(operator, ruleOperand)] ∧
        operand.equals ruleOperand = true := by
  constructor
  · intro h
    rcases rule with _ | _ | _ | _ | _ | fields
    case object =>
      rcases fields with _ | ⟨⟨ruleOperator, ruleOperand⟩, _ | ⟨_, _⟩⟩
      · simp [Value.equals, Value.equalFields] at h
      · simp only [Value.equals, Value.equalFields, Bool.and_true, Bool.and_eq_true,
          beq_iff_eq] at h
        obtain ⟨rfl, hoperand⟩ := h
        exact ⟨ruleOperand, rfl, hoperand⟩
      · simp [Value.equals, Value.equalFields] at h
    all_goals simp [Value.equals] at h
  · rintro ⟨ruleOperand, rfl, hoperand⟩
    simp [Value.equals, Value.equalFields, hoperand]

/-! ## The matcher on patterns without placeholders -/

mutual

/-- A rule that fits is equal: what the fallback on the parts accepts, equality
has accepted already. -/
theorem equals_of_fits : {pattern : Value} → Exact pattern → ∀ {rule : Value},
    fits pattern rule = true → pattern.equals rule = true
  | .text s, h, rule, hfits => by
      obtain rfl := (fits_text_iff (exact_text_iff.mp h)).mp hfits
      simp [Value.equals]
  | .list patterns, h, rule, hfits => by
      obtain ⟨rules, rfl, heach⟩ := fits_list_iff.mp hfits
      exact equals_list_iff.mpr ⟨rules, rfl, equalItems_of_fitEach (exact_list_iff.mp h) heach⟩
  | .object [(operator, operand)], h, rule, hfits => by
      obtain ⟨ruleOperator, ruleOperand, rfl, hoperator, hoperand⟩ := fits_operation_iff.mp hfits
      obtain ⟨hnamed, hexact⟩ := exact_operation_iff.mp h
      obtain rfl := hoperator.resolve_left hnamed
      exact equals_operation_iff.mpr ⟨ruleOperand, rfl, equals_of_fits hexact hoperand⟩
  | .object [], _, _, hfits => by
      simpa [fits] using hfits
  | .object (_ :: _ :: _), _, _, hfits => by
      simpa [fits] using hfits
  | .null, _, _, hfits | .bool _, _, _, hfits | .number _, _, _, hfits => by
      simpa [fits] using hfits

theorem equalItems_of_fitEach : {patterns : List Value} → (∀ pattern ∈ patterns, Exact pattern) →
    ∀ {rules : List Value}, fitEach patterns rules = true → Value.equalItems patterns rules = true
  | [], _, [], _ => rfl
  | [], _, _ :: _, heach => by cases heach
  | _ :: _, _, [], heach => by cases heach
  | pattern :: patterns, h, rule :: rules, heach => by
      rw [fitEach, Bool.and_eq_true] at heach
      rw [List.forall_mem_cons] at h
      have hfirst := equals_of_fits h.1 heach.1
      have hrest := equalItems_of_fitEach h.2 heach.2
      rw [Value.equalItems, hfirst, hrest, Bool.and_true]

end

/-- A rule fits a pattern without placeholders when it equals the pattern, and only
then. -/
theorem fits_iff_equals {pattern : Value} (h : Exact pattern) (rule : Value) :
    fits pattern rule = true ↔ pattern.equals rule = true := by
  constructor
  · intro hfits
    exact equals_of_fits h hfits
  · intro hequals
    exact fits_of_equals hequals

/-- The charge for some goods, a record that holds placeholder words among them. -/
def charge (quantity : Number) : Value :=
  .object [("*", .list [.number quantity, .object [("goods", .text "@"), ("kind", .text "number")]])]

/-- Two as an integer and two as a double are one charge; the words in the record
stand for themselves, so another record does not fit. -/
theorem fits_iff_equals_charge :
    Exact (charge (.int 2)) ∧ fits (charge (.int 2)) (charge (.float 2)) = true ∧
      fits (charge (.int 2)) (.object [("*", .list [.number (.int 2),
        .object [("goods", .text "salt"), ("kind", .number (.int 1))]])]) = false := by
  have hquantity : Exact (.number (.int 2)) := ⟨by rintro _ ⟨⟩, by rintro ⟨_, ⟨⟩⟩⟩
  have hrecord : Exact (.object [("goods", .text "@"), ("kind", .text "number")]) :=
    exact_fields _ _ []
  have h : Exact (charge (.int 2)) := by
    refine exact_operation_iff.mpr ⟨by decide, exact_list_iff.mpr ?_⟩
    simp only [List.forall_mem_cons, List.not_mem_nil, false_imp_iff, implies_true, and_true]
    exact ⟨hquantity, hrecord⟩
  refine ⟨h, (fits_iff_equals h _).mpr (by decide +kernel), ?_⟩
  rw [Bool.eq_false_iff, ne_eq, fits_iff_equals h]
  decide +kernel

end DataRules.Pattern
