import DataRules.Proofs.Eval.Outcomes

set_option autoImplicit false

/-!
# Dispatch: which operators a rule can call

The operators that a rule mentions are the keys of the objects with one field
that rules reach: items of lists and operands of operations, at any depth.
Nothing else is ever looked up in a registry while the rule is evaluated, be it
in the data or among the results of operators, and of what is mentioned the
evaluator keeps its own operators to itself.  So two registries that make the
same of every other mentioned operator make the same of the rule.
-/

namespace DataRules

/-! ## The operators that a rule mentions -/

namespace Value

/-- The second value is the first one or a part of it that is read as a rule. -/
inductive Reaches : Value → Value → Prop where
  | self (v : Value) : Reaches v v
  | item {items : List Value} {v w : Value} (mem : v ∈ items) (reaches : Reaches v w) :
      Reaches (.list items) w
  | operand {operator : String} {operand w : Value} (reaches : Reaches operand w) :
      Reaches (.object [(operator, operand)]) w

/-- The name is the operator of an operation that the rule reaches. -/
def Mentions (rule : Value) (name : String) : Prop :=
  ∃ operand, rule.Reaches (.object [(name, operand)])

end Value

namespace Rule

mutual

/-- The names of the operators in a rule, as often as they occur. -/
def operators : Rule → List String
  | .literal _ => []
  | .list items => allOperators items
  | .operation operator args => operator :: allOperators args

/-- The names of the operators in some rules. -/
def allOperators : List Rule → List String
  | [] => []
  | rule :: rules => rule.operators ++ allOperators rules

end

theorem mem_allOperators {name : String} {rules : List Rule} :
    name ∈ allOperators rules ↔ ∃ rule ∈ rules, name ∈ rule.operators := by
  induction rules with
  | nil => simp [allOperators]
  | cons rule rules ih => simp [allOperators, ih]

/-- As arguments or as one rule, an operand holds the same operators. -/
theorem allOperators_asList (operand : Value) :
    allOperators (operand.asList.map ofValue) = (ofValue operand).operators := by
  cases operand with
  | list items => simp only [Value.asList, ofValue, operators, ofValues_eq_map]
  | _ => simp only [Value.asList, List.map_cons, List.map_nil, allOperators, List.append_nil]

theorem mem_operators_of_reaches {v : Value} {name : String} {operand : Value}
    (h : v.Reaches (.object [(name, operand)])) : name ∈ (ofValue v).operators := by
  generalize hw : Value.object [(name, operand)] = w at h
  induction h with
  | self v =>
      rw [← hw, ofValue_operation, operators]
      exact List.mem_cons_self
  | @item items v w mem _ ih =>
      rw [ofValue, operators, ofValues_eq_map, mem_allOperators]
      exact ⟨ofValue v, List.mem_map_of_mem mem, ih hw⟩
  | operand _ ih =>
      rw [ofValue_operation, operators, allOperators_asList]
      exact List.mem_cons_of_mem _ (ih hw)

theorem mentions_of_mem_operators {name : String} :
    (v : Value) → name ∈ (ofValue v).operators → v.Mentions name
  | .list items, h => by
      rw [ofValue, operators, ofValues_eq_map, mem_allOperators] at h
      obtain ⟨_, hrule, hname⟩ := h
      obtain ⟨v, hv, rfl⟩ := List.mem_map.mp hrule
      obtain ⟨operand, hreaches⟩ := mentions_of_mem_operators v hname
      exact ⟨operand, .item hv hreaches⟩
  | .object [(operator, operand)], h => by
      rw [ofValue_operation, operators, allOperators_asList] at h
      rcases List.mem_cons.mp h with rfl | h
      · exact ⟨operand, .self _⟩
      · obtain ⟨inner, hreaches⟩ := mentions_of_mem_operators operand h
        exact ⟨inner, .operand hreaches⟩
  | .object [], h | .object (_ :: _ :: _), h => by simp [ofValue, operators] at h
  | .null, h | .bool _, h | .number _, h | .text _, h => by simp [ofValue, operators] at h

/-- A rule mentions the operators that are found in it. -/
theorem mem_operators_iff_mentions {v : Value} {name : String} :
    name ∈ (ofValue v).operators ↔ v.Mentions name :=
  ⟨mentions_of_mem_operators v, fun ⟨_, h⟩ => mem_operators_of_reaches h⟩

end Rule

instance (rule : Value) (name : String) : Decidable (rule.Mentions name) :=
  decidable_of_iff _ Rule.mem_operators_iff_mentions

/-! ## Evaluation looks up nothing else -/

namespace Registry

variable {σ τ : Type}

section

variable (L : Lifting σ τ) (registry : Registry σ) (registry' : Registry τ)

/-- The two registries make related evaluations of the operator, on the same data
and arguments. -/
def InvokesAlike (name : String) : Prop :=
  ∀ data args, L.Rel (· = ·) (registry.invoke name data args) (registry'.invoke name data args)

variable {L registry registry'}

theorem operator_alike {name : String} {args : List (Meaning σ)} {args' : List (Meaning τ)}
    (hinvoke : Keyword.ofName? name = none → InvokesAlike L registry registry' name)
    (hargs : ∀ data, List.Forall₂ (L.Alike .equality data data) args args') (data : Value) :
    L.Alike .equality data data (registry.operator name args) (registry'.operator name args') := by
  have hcalls : Keyword.ofName? name = none →
      CallsRelated L .equality registry registry' name := by
    rintro hkeyword context _ vs vs' rfl hvs
    obtain rfl := Value.Congruence.eq_of_equality hvs
    exact hinvoke hkeyword context vs
  have hsame : ∀ context context', Value.Congruence.equality.Rel context context' →
      List.Forall₂ (L.Alike .equality context context') args args' := by
    rintro context _ rfl
    exact hargs context
  exact operator_congr (Value.Congruence.equality_respects _)
    (Value.Congruence.equality_respects _) (Value.Congruence.equality_respects _) hcalls hsame rfl

mutual

/-- What relates the calls of the operators in a rule relates the evaluations of
the rule. -/
theorem meaning_alike : (rule : Rule) →
    (∀ name ∈ rule.operators, Keyword.ofName? name = none →
      InvokesAlike L registry registry' name) →
    ∀ data, L.Alike .equality data data (registry.meaning rule) (registry'.meaning rule)
  | .literal _, _, _ => L.pure rfl
  | .list items, h, data => list_congr (meanings_alike items h data)
  | .operation name args, h, data => by
      refine operator_alike (h name ?_) (meanings_alike args fun other hother => h other ?_) data
      · exact List.mem_cons_self
      · exact List.mem_cons_of_mem name hother

theorem meanings_alike : (rules : List Rule) →
    (∀ name ∈ Rule.allOperators rules, Keyword.ofName? name = none →
      InvokesAlike L registry registry' name) →
    ∀ data, List.Forall₂ (L.Alike .equality data data) (registry.meanings rules)
      (registry'.meanings rules)
  | [], _, _ => .nil
  | rule :: rules, h, data =>
      .cons (meaning_alike rule (fun name hname => h name (List.mem_append_left _ hname)) data)
        (meanings_alike rules (fun name hname => h name (List.mem_append_right _ hname)) data)

end

/-- What relates the calls of the operators that a rule mentions relates the
evaluations of the rule. -/
theorem apply_alike {rule : Value}
    (h : ∀ name, rule.Mentions name → Keyword.ofName? name = none →
      InvokesAlike L registry registry' name) (data : Value) :
    L.Rel (· = ·) (registry.apply rule data) (registry'.apply rule data) :=
  meaning_alike (Rule.ofValue rule)
    (fun name hname => h name (Rule.mem_operators_iff_mentions.mp hname)) data

end

/-- Two registries that make the same of every operator that a rule mentions, the
evaluator's own apart, make the same of the rule on every data context.  What
else they hold, under the names of the evaluator's operators or under names that
only come up in data and results, makes no difference. -/
theorem apply_eq_of_invoke_eq {registry registry' : Registry σ} {rule : Value}
    (h : ∀ name, rule.Mentions name → Keyword.ofName? name = none →
      ∀ data args, registry.invoke name data args = registry'.invoke name data args)
    (data : Value) : registry.apply rule data = registry'.apply rule data := by
  have hinvoke : ∀ name, rule.Mentions name → Keyword.ofName? name = none →
      InvokesAlike (Lifting.same σ) registry registry' name := by
    intro name hname hkeyword context args
    exact Lifting.same_iff.mpr (h name hname hkeyword context args)
  exact Lifting.same_iff.mp (apply_alike hinvoke data)

/-- A registry with one operator, which gives the list of its arguments. -/
def listing : Registry Unit :=
  empty.insert "list" (.function fun args => pure (.list args))

/-- The same registry with an entry under the name of an evaluator's operator, and
one under a name that the data brings in. -/
def listingShadowed : Registry Unit :=
  (listing.insert "var" (.function fun _ => .fail (.raised "shadowed"))).insert "sum"
    (.function fun _ => .fail (.raised "executed"))

/-- An operation in the data is listed, not executed, and `var` is the
evaluator's. -/
theorem apply_eq_of_invoke_eq_listing :
    (∀ name, Value.Mentions (.object [("list", .list [.object [("var", .text "x")]])]) name →
      Keyword.ofName? name = none →
      ∀ data args, listing.invoke name data args = listingShadowed.invoke name data args) ∧
    listing.apply (.object [("list", .list [.object [("var", .text "x")]])])
        (.object [("x", .object [("sum", .list [])])]) =
      listingShadowed.apply (.object [("list", .list [.object [("var", .text "x")]])])
        (.object [("x", .object [("sum", .list [])])]) := by
  have h : ∀ name, Value.Mentions (.object [("list", .list [.object [("var", .text "x")]])]) name →
      Keyword.ofName? name = none →
      ∀ data args, listing.invoke name data args = listingShadowed.invoke name data args := by
    intro name hname hkeyword data args
    have hmem := Rule.mem_operators_iff_mentions.mpr hname
    have hcases : name = "list" ∨ name = "var" := by
      simpa [Rule.ofValue, Rule.ofValues, Rule.operators, Rule.allOperators] using hmem
    rcases hcases with rfl | rfl
    · rfl
    · exact absurd hkeyword (by decide)
  exact ⟨h, apply_eq_of_invoke_eq h _⟩

end Registry

end DataRules
