import DataRules.Proofs.Eval.Builtins
import DataRules.Proofs.Eval.Iteration

set_option autoImplicit false

/-!
# Duality: negation through connectives and quantifiers

`!` takes `and` to `or` and back when it is moved to the arguments, though the two give
values of arguments and not truths: a negated value is a truth, and the search for a
true argument among negated ones stops where the search for a false one does.  Among
items, `none` negates `some` and is `all` of the negated body.  `all` alone is false
without items, so there the two have to differ.
-/

namespace DataRules

namespace Control

variable {σ : Type}

/-- The truth that the value of a meaning has not. -/
def negated (meaning : Meaning σ) : Meaning σ := fun data => do
  return .bool !(← meaning data).isTruthy

theorem isTruthy_not_iff {v : Value} {b : Bool} :
    ((Value.bool !v.isTruthy).isTruthy = !b) ↔ v.isTruthy = b :=
  Bool.not_inj_iff

/-- Negated arguments are searched for one truth as the arguments are for the other. -/
theorem firstWith_negated (b : Bool) : {args : List (Meaning σ)} → args ≠ [] → (data : Value) →
    firstWith (!b) (args.map negated) data = negated (firstWith b args) data
  | [], hargs, _ => absurd rfl hargs
  | [_], _, _ => rfl
  | arg :: next :: rest, _, data => by
      have hrest : firstWith (!b) (negated next :: rest.map negated) data =
          negated (firstWith b (next :: rest)) data :=
        firstWith_negated b (List.cons_ne_nil next rest) data
      simp only [List.map_cons, firstWith, hrest, negated, bind_assoc, pure_bind]
      congr
      funext v
      by_cases hv : v.isTruthy = b
      · rw [if_pos (isTruthy_not_iff.mpr hv), if_pos hv, pure_bind]
      · rw [if_neg (isTruthy_not_iff.not.mpr hv), if_neg hv]

/-- The items on which a negated body is true are those on which the body is false. -/
theorem search_negated (b : Bool) (body : Meaning σ) (items : List Value) :
    search (!b) (negated body) items = search b body items := by
  induction items with
  | nil => rfl
  | cons item items ih =>
      simp only [search, negated, bind_assoc, pure_bind, isTruthy_not_iff, ih]

end Control

namespace Registry

variable {σ : Type} {registry : Registry σ}

/-- The rule that negates a rule. -/
def negation (rule : Value) : Value := .object [("!", .list [rule])]

/-- How negation goes through the operators of control, as evaluations: with the same
values, the same errors, the same log and the same effects. -/
structure Dual (registry : Registry σ) (data : Value) : Prop where
  /-- A conjunction is negated by negating its arguments and taking their disjunction. -/
  conjunction : ∀ {rules : List Value}, rules ≠ [] →
    registry.apply (negation (conjunctionOf rules)) data =
      registry.apply (disjunctionOf (rules.map negation)) data
  /-- A disjunction is negated by negating its arguments and taking their conjunction. -/
  disjunction : ∀ {rules : List Value}, rules ≠ [] →
    registry.apply (negation (disjunctionOf rules)) data =
      registry.apply (conjunctionOf (rules.map negation)) data
  /-- A body holds of none exactly when it does not hold of some, for any source. -/
  none : ∀ source body : Value,
    registry.apply (iteration "none" source body) data =
      registry.apply (negation (iteration "some" source body)) data
  /-- Of the items of a list that is not empty, a body holds of all when its negation
  holds of none. -/
  all : ∀ {source : Value} {items : List Value} {log : List Json} {state next : σ},
    (registry.apply source data).run state = (⟨.ok (.list items), log⟩, next) → items ≠ [] →
    ∀ body, (registry.apply (iteration "all" source body) data).run state =
      (registry.apply (iteration "none" source (negation body)) data).run state

theorem get?_not : (builtins : Registry σ).get? "!" =
    some (.function (Builtin.plain fun args => .bool !(Builtin.arg args 0).isTruthy)) := by
  rw [get?_builtins]
  rfl

section

variable (hnot : registry.get? "!" = builtins.get? "!")

include hnot

/-- A call of the built-in `!` gives the truth that the first argument has not. -/
theorem invoke_not (data : Value) (args : List Value) :
    registry.invoke "!" data args = pure (.bool !(Builtin.arg args 0).isTruthy) := by
  rw [invoke, hnot, get?_not]
  rfl

theorem apply_negation (rule : Value) :
    registry.apply (negation rule) = Control.negated (registry.apply rule) := by
  funext data
  rw [negation, apply_operation]
  change Control.evaluateAll [registry.apply rule] data >>= registry.invoke "!" data = _
  simp only [Control.evaluateAll, List.mapM_cons, List.mapM_nil, bind_assoc, pure_bind,
    invoke_not hnot]
  rfl

theorem map_apply_negation (rules : List Value) :
    (rules.map negation).map registry.apply = (rules.map registry.apply).map Control.negated := by
  simp only [List.map_map, List.map_inj_left, Function.comp_apply, apply_negation hnot,
    implies_true]

end

/-- On any source `none` gives the truth that `some` does not. -/
theorem iterateOver_none_eq (body : Value) :
    registry.iterateOver "none" body = Control.negated (registry.iterateOver "some" body) := by
  funext source
  cases source with
  | list items =>
      rw [Control.negated, iterateOver_none, iterateOver_some, bind_assoc]
      simp only [pure_bind]
      rfl
  | _ => rfl

/-- Negation goes so through the operators of every registry that has the built-in `!`. -/
theorem dual (hnot : registry.get? "!" = builtins.get? "!") (data : Value) :
    Dual registry data where
  conjunction := by
    intro rules hrules
    have hmeanings : rules.map registry.apply ≠ [] := by simpa using hrules
    rw [apply_negation hnot, apply_conjunctionOf, apply_disjunctionOf, map_apply_negation hnot]
    exact (Control.firstWith_negated false hmeanings data).symm
  disjunction := by
    intro rules hrules
    have hmeanings : rules.map registry.apply ≠ [] := by simpa using hrules
    rw [apply_negation hnot, apply_disjunctionOf, apply_conjunctionOf, map_apply_negation hnot]
    exact (Control.firstWith_negated true hmeanings data).symm
  none := by
    intro source body
    have hsome := registry.apply_iteration body (by decide : "some" ∈ iterators) source data
    have hnone := registry.apply_iteration body (by decide : "none" ∈ iterators) source data
    rw [apply_negation hnot, Control.negated, hsome, hnone, bind_assoc, iterateOver_none_eq]
    rfl
  all := by
    intro source items log state next hsource hitems body
    have hall := registry.apply_iteration body (by decide : "all" ∈ iterators) source data
    have hnone := registry.apply_iteration (negation body) (by decide : "none" ∈ iterators)
      source data
    have hover : registry.iterateOver "all" body (.list items) =
        registry.iterateOver "none" (negation body) (.list items) := by
      have hsearch := Control.search_negated false (registry.apply body) items
      rw [iterateOver_all registry body hitems, iterateOver_none, apply_negation hnot,
        ← hsearch, Bool.not_false]
    rw [hall, hnone, Eval.run_bind_of_ok hsource, Eval.run_bind_of_ok hsource, hover]

/-- The rule that logs a value and gives it. -/
def logging (v : Value) : Value := .object [("log", .list [v])]

/-- The built-in operations but for `+`, and arguments of which the third is a sum: it is
not evaluated on either side of the negation. -/
theorem dual_withoutSum :
    ((builtins : Registry Unit).erase "+").get? "!" = builtins.get? "!" ∧
    (((builtins.erase "+").apply (negation (conjunctionOf
        [logging (.bool true), logging .null, .object [("+", .list [])]])) .null).run () =
      ((builtins.erase "+").apply (disjunctionOf
        [negation (logging (.bool true)), negation (logging .null),
          negation (.object [("+", .list [])])]) .null).run () ∧
      ((builtins.erase "+").apply (negation (conjunctionOf
        [logging (.bool true), logging .null, .object [("+", .list [])]])) .null).run () =
        (⟨.ok (.bool true), [.bool true, .null]⟩, ())) ∧
    ((builtins.erase "+").apply (.list [.bool true, .null]) .null).run () =
      (⟨.ok (.list [.bool true, .null]), []⟩, ()) ∧
    ((builtins.erase "+").apply (iteration "all" (.list [.bool true, .null])
        (.object [("var", .text "")])) .null).run () =
      ((builtins.erase "+").apply (iteration "none" (.list [.bool true, .null])
        (negation (.object [("var", .text "")]))) .null).run () := by
  have hnot : ((builtins : Registry Unit).erase "+").get? "!" = builtins.get? "!" :=
    get?_erase_of_ne builtins (by decide)
  have hsource : ((builtins.erase "+").apply (.list [.bool true, .null]) .null).run () =
      (⟨.ok (.list [.bool true, .null]), []⟩, ()) := by rfl
  refine ⟨hnot, ⟨?_, by rfl⟩, hsource, (dual hnot .null).all hsource (List.cons_ne_nil _ _) _⟩
  exact congrArg (Eval.run · ()) ((dual hnot .null).conjunction (List.cons_ne_nil _ _))

end Registry

end DataRules
