import DataRules.Proofs.Eval.Outcomes

set_option autoImplicit false

/-!
# Branches: a chain of conditions and its nesting

A conditional takes its conditions and consequents by turns, as far as there are two
arguments left.  What comes after the first two can be gathered in a conditional of its
own, which is then the alternative of the first condition.  Doing so all along a chain
leaves conditionals of two or three arguments, one inside the other, and either operator
may stand at each of them.
-/

namespace DataRules.Registry

open Control

variable {σ : Type}

/-- The operators of a conditional. -/
def conditionals : List String := ["if", "?:"]

/-- The rule that chooses among some rules. -/
def conditional (name : String) (rules : List Value) : Value := .object [(name, .list rules)]

/-- A condition with its consequent, and the operator of the conditional that the two
get when a chain is nested. -/
structure Branch where
  operator : String
  condition : Value
  consequent : Value

/-- The conditions and consequents by turns, and then the alternative, if there is one. -/
def chained (branches : List Branch) (otherwise : Option Value) : List Value :=
  branches.flatMap (fun branch => [branch.condition, branch.consequent]) ++ otherwise.toList

/-- One conditional for each branch, the alternative of each being the next one.  The
last has the alternative of the chain, if there is one. -/
def nested (otherwise : Option Value) : List Branch → Value
  | [] => otherwise.getD .null
  | [branch] =>
      conditional branch.operator (branch.condition :: branch.consequent :: otherwise.toList)
  | branch :: next :: rest =>
      conditional branch.operator
        [branch.condition, branch.consequent, nested otherwise (next :: rest)]

/-- How a conditional with many arguments and its nesting agree: in the value or the
error, in the log, and in what happens to the host. -/
structure Nests (registry : Registry σ) (data : Value) : Prop where
  /-- The arguments after the first two may be a conditional of their own, however many
  they are. -/
  step : ∀ {outer outer' inner : String}, outer ∈ conditionals → outer' ∈ conditionals →
    inner ∈ conditionals → ∀ (condition consequent : Value) (rest : List Value),
      registry.apply (conditional outer (condition :: consequent :: rest)) data =
        registry.apply (conditional outer' [condition, consequent, conditional inner rest]) data
  /-- A chain is its nesting, with an alternative at the end or without. -/
  chain : ∀ {name : String}, name ∈ conditionals → ∀ (branches : List Branch)
    (otherwise : Option Value), (∀ branch ∈ branches, branch.operator ∈ conditionals) →
      registry.apply (conditional name (chained branches otherwise)) data =
        registry.apply (nested otherwise branches) data
  /-- When all conditions are evaluated and none of them is true, a chain without an
  alternative gives null, and nothing but the conditions was evaluated. -/
  unmatched : ∀ {name : String}, name ∈ conditionals → ∀ {branches : List Branch}
    {state next : σ} {values : List Value} {log : List Json},
      (registry.apply (.list (branches.map Branch.condition)) data).run state =
        (⟨.ok (.list values), log⟩, next) →
      (∀ v ∈ values, v.isTruthy = false) →
      (registry.apply (conditional name (chained branches none)) data).run state =
        (⟨.ok .null, log⟩, next)

/-! ## Conditionals as choices -/

variable {registry : Registry σ} {data : Value}

theorem apply_conditional {name : String} (hname : name ∈ conditionals) (rules : List Value) :
    registry.apply (conditional name rules) = choose (rules.map registry.apply) := by
  have hkeyword : Keyword.ofName? name = some .choose := by
    rcases List.mem_pair.mp hname with rfl | rfl <;> rfl
  funext data
  rw [conditional, apply_operation, operator, hkeyword]
  rfl

/-- What a choice goes on with when its first condition is false is a choice. -/
theorem choose_cons_cons (condition consequent : Meaning σ) (rest : List (Meaning σ)) :
    choose (condition :: consequent :: rest) = choose [condition, consequent, choose rest] := by
  funext data
  rw [choose, choose, choose]

theorem apply_conditional_step {outer outer' inner : String} (houter : outer ∈ conditionals)
    (houter' : outer' ∈ conditionals) (hinner : inner ∈ conditionals)
    (condition consequent : Value) (rest : List Value) :
    registry.apply (conditional outer (condition :: consequent :: rest)) =
      registry.apply (conditional outer' [condition, consequent, conditional inner rest]) := by
  rw [apply_conditional houter, apply_conditional houter', List.map_cons, List.map_cons,
    choose_cons_cons, List.map_cons, List.map_cons, List.map_cons, List.map_nil,
    apply_conditional hinner]

theorem chained_cons (branch : Branch) (branches : List Branch) (otherwise : Option Value) :
    chained (branch :: branches) otherwise =
      branch.condition :: branch.consequent :: chained branches otherwise := by
  rw [chained, List.flatMap_cons, List.append_assoc]
  rfl

/-- By induction on the branches, each step taking the first one off the chain. -/
theorem apply_chained (otherwise : Option Value) : (branches : List Branch) →
    (∀ branch ∈ branches, branch.operator ∈ conditionals) → ∀ {name : String},
      name ∈ conditionals →
      registry.apply (conditional name (chained branches otherwise)) data =
        registry.apply (nested otherwise branches) data
  | [], _, name, hname => by
      rw [apply_conditional hname]
      cases otherwise <;> rfl
  | [branch], hoperators, name, hname => by
      have hoperator : branch.operator ∈ conditionals := hoperators branch List.mem_cons_self
      have hlast : chained [branch] otherwise =
          branch.condition :: branch.consequent :: otherwise.toList := rfl
      rw [nested, hlast, apply_conditional hname, apply_conditional hoperator]
  | branch :: next :: rest, hoperators, name, hname => by
      rw [List.forall_mem_cons] at hoperators
      obtain ⟨hoperator, hrest⟩ := hoperators
      have hnested := apply_chained otherwise (next :: rest) hrest hname
      rw [chained_cons, apply_conditional_step hname hoperator hname, nested,
        apply_conditional hoperator, apply_conditional hoperator]
      simp only [List.map_cons, List.map_nil, choose, hnested]

/-! ## No condition is true -/

/-- A run that ends with a value goes through a value of its first part. -/
theorem exists_of_run_bind {α β : Type} {m : Eval σ α} {f : α → Eval σ β} {state next : σ} {b : β}
    {log : List Json} (h : (m >>= f).run state = (⟨.ok b, log⟩, next)) :
    ∃ a middle front back, m.run state = (⟨.ok a, front⟩, middle) ∧
      (f a).run middle = (⟨.ok b, back⟩, next) ∧ log = front ++ back := by
  rcases hm : m.run state with ⟨⟨error | a, front⟩, middle⟩
  · rw [Eval.run_bind_of_error hm] at h
    cases h
  · rw [Eval.run_bind_of_ok hm] at h
    rcases hf : (f a).run middle with ⟨⟨result, back⟩, last⟩
    rw [hf] at h
    cases h
    exact ⟨a, middle, front, back, rfl, hf, rfl⟩

/-- By induction on the branches: a run of all conditions starts with a run of the first,
whose value is not true, and so does a run of the chain. -/
theorem run_choose_of_false {branches : List Branch} {state next : σ} {values : List Value}
    {log : List Json}
    (hrun : (evaluateAll ((branches.map Branch.condition).map registry.apply) data).run state =
      (⟨.ok values, log⟩, next))
    (hvalues : ∀ v ∈ values, v.isTruthy = false) :
    (choose ((chained branches none).map registry.apply) data).run state =
      (⟨.ok .null, log⟩, next) := by
  induction branches generalizing state values log with
  | nil =>
      cases hrun
      rfl
  | cons branch branches ih =>
      rw [evaluateAll, List.map_cons, List.map_cons, List.mapM_cons] at hrun
      obtain ⟨v, middle, front, back, hfirst, hrest, rfl⟩ := exists_of_run_bind hrun
      obtain ⟨others, last, middle', rear, hothers, hpure, rfl⟩ := exists_of_run_bind hrest
      cases hpure
      rw [List.forall_mem_cons] at hvalues
      obtain ⟨hv, hothersFalse⟩ := hvalues
      rw [chained_cons, List.map_cons, List.map_cons, choose, Eval.run_bind_of_ok hfirst, hv,
        if_neg Bool.false_ne_true, ih hothers hothersFalse, List.append_nil]

/-- A list has the values of its items for a value. -/
theorem apply_list (items : List Value) (data : Value) :
    registry.apply (.list items) data =
      evaluateAll (items.map registry.apply) data >>= fun values => pure (.list values) := by
  rw [apply, Rule.ofValue, Rule.ofValues_eq_map, meaning, meanings_eq_map, List.map_map]
  rfl

/-- Over every registry, and on every data context, conditionals and their nestings agree. -/
theorem nests (registry : Registry σ) (data : Value) : Nests registry data where
  step := by
    intro outer outer' inner houter houter' hinner condition consequent rest
    rw [apply_conditional_step houter houter' hinner]
  chain := by
    intro name hname branches otherwise hoperators
    exact apply_chained otherwise branches hoperators hname
  unmatched := by
    intro name hname branches state next values log hrun hvalues
    rw [apply_list] at hrun
    obtain ⟨values', middle, front, back, hconditions, hpure, rfl⟩ := exists_of_run_bind hrun
    cases hpure
    rw [apply_conditional hname, List.append_nil]
    exact run_choose_of_false hconditions hvalues

end DataRules.Registry
