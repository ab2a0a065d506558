import DataRules.Eval.Builtin
import DataRules.Proofs.Eval.Search

set_option autoImplicit false

/-!
# Iteration: a source first, and then its items

An iteration evaluates its source on the data context, and `reduce` its initial value
too.  What it does then depends on the value of the source alone: `iterateOver` is that
second part, for a source that has been evaluated.  The quantifiers are searches through the
items, and `filter` keeps the items on which `map` would give something true.
-/

namespace DataRules

namespace Control

variable {σ : Type}

/-- The items whose values are true, as many values being given as items. -/
def kept (items values : List Value) : List Value :=
  ((items.zip values).filter fun pair => pair.2.isTruthy).map Prod.fst

theorem kept_cons (item v : Value) (items values : List Value) :
    kept (item :: items) (v :: values) =
      if v.isTruthy then item :: kept items values else kept items values := by
  rw [kept, List.zip_cons_cons, List.filter_cons]
  split <;> rfl

/-- Filtering evaluates what mapping does, and keeps the items with true values. -/
theorem filterItems_eq_mapItems (body : Meaning σ) (items : List Value) :
    filterItems body items = mapItems body items >>= fun values => pure (kept items values) := by
  induction items with
  | nil => rfl
  | cons item items ih =>
      simp only [filterItems, mapItems, ih, bind_assoc, pure_bind, kept_cons]

end Control

namespace Registry

variable {σ : Type}

/-- The rule that evaluates a body on the items of a source. -/
def iteration (name : String) (source body : Value) : Value :=
  .object [(name, .list [source, body])]

/-- The rule that takes the items of a source together by a body, starting from an
initial value. -/
def reductionOf (source body initial : Value) : Value :=
  .object [("reduce", .list [source, body, initial])]

/-- The operators of iteration that take a source and a body. -/
def iterators : List String := ["map", "filter", "all", "some", "none"]

/-- What an operator of iteration makes of the value of its source. -/
def iterateOver (registry : Registry σ) (name : String) (body source : Value) : Eval σ Value :=
  registry.operator name [fun _ => pure source, registry.apply body] .null

/-- What a reduction makes of the values of its source and its initial value. -/
def reduceOver (registry : Registry σ) (body source initial : Value) : Eval σ Value :=
  registry.operator "reduce"
    [fun _ => pure source, registry.apply body, fun _ => pure initial] .null

variable (registry : Registry σ) (body : Value)

/-- An iteration evaluates its source, and then depends on nothing but its value. -/
theorem apply_iteration {name : String} (hname : name ∈ iterators) (source data : Value) :
    registry.apply (iteration name source body) data =
      registry.apply source data >>= registry.iterateOver name body := by
  rw [iteration, apply_operation]
  simp only [iterators, List.mem_cons, List.not_mem_nil, or_false] at hname
  rcases hname with rfl | rfl | rfl | rfl | rfl <;> rfl

/-- A reduction evaluates its source and its initial value, and then depends on nothing
but their values. -/
theorem apply_reductionOf (source initial data : Value) :
    registry.apply (reductionOf source body initial) data =
      registry.apply source data >>= fun v =>
        registry.apply initial data >>= registry.reduceOver body v := by
  rw [reductionOf, apply_operation]
  rfl

theorem iterateOver_map (items : List Value) : registry.iterateOver "map" body (.list items) =
    Control.mapItems (registry.apply body) items >>= fun values => pure (.list values) := by
  rfl

theorem iterateOver_filter (items : List Value) : registry.iterateOver "filter" body (.list items) =
    Control.filterItems (registry.apply body) items >>= fun values => pure (.list values) := by
  rfl

theorem iterateOver_some (items : List Value) : registry.iterateOver "some" body (.list items) =
    Control.search true (registry.apply body) items >>= fun found => pure (.bool found) := by
  rw [← Control.someItem_eq_search]
  rfl

theorem iterateOver_none (items : List Value) : registry.iterateOver "none" body (.list items) =
    Control.search true (registry.apply body) items >>= fun found => pure (.bool !found) := by
  rw [← Control.someItem_eq_search]
  rfl

/-- `all` is false without items, though no item speaks against it. -/
theorem iterateOver_all_nil : registry.iterateOver "all" body (.list []) = pure (.bool false) := by
  rfl

theorem iterateOver_all {items : List Value} (hitems : items ≠ []) :
    registry.iterateOver "all" body (.list items) =
      Control.search false (registry.apply body) items >>= fun found => pure (.bool !found) := by
  obtain ⟨item, rest, rfl⟩ := List.exists_cons_of_ne_nil hitems
  have hall : registry.iterateOver "all" body (.list (item :: rest)) =
      Control.allItems (registry.apply body) (item :: rest) >>= fun b => pure (.bool b) := rfl
  rw [hall, Control.allItems_eq_search, bind_assoc]
  simp only [pure_bind]

theorem reduceOver_list (items : List Value) (initial : Value) :
    registry.reduceOver body (.list items) initial =
      Control.reduceItems (registry.apply body) items initial := by
  rfl

end Registry

end DataRules
