import DataRules.Proofs.Eval.Iteration

set_option autoImplicit false

/-!
# Concatenation: iterating over one list after another

An iteration over two lists put together does what the iteration over the first one does,
and then, unless that failed or settled the answer, what the one over the second does.
What comes of the two is put together as the operator's answers are: lists one after the
other, truths as `or` or `and` does it, and the accumulator of a reduction handed on.
-/

namespace DataRules

namespace Control

variable {σ : Type} (body : Meaning σ)

theorem mapItems_append (front back : List Value) :
    mapItems body (front ++ back) =
      mapItems body front >>= fun us => mapItems body back >>= fun vs => pure (us ++ vs) := by
  induction front with
  | nil => simp only [List.nil_append, mapItems, pure_bind, bind_pure]
  | cons item front ih =>
      simp only [List.cons_append, mapItems, ih, bind_assoc, pure_bind]

theorem filterItems_append (front back : List Value) :
    filterItems body (front ++ back) =
      filterItems body front >>= fun us =>
        filterItems body back >>= fun vs => pure (us ++ vs) := by
  induction front with
  | nil => simp only [List.nil_append, filterItems, pure_bind, bind_pure]
  | cons item front ih =>
      simp only [List.cons_append, filterItems, ih, bind_assoc, pure_bind]
      congr
      funext v
      cases v.isTruthy <;> rfl

/-- The second list is searched only when nothing was found in the first. -/
theorem search_append (b : Bool) (front back : List Value) :
    search b body (front ++ back) =
      search b body front >>= fun found => if found then pure true else search b body back := by
  induction front with
  | nil => simp only [List.nil_append, search, pure_bind, Bool.false_eq_true, if_false]
  | cons item front ih =>
      simp only [List.cons_append, search, ih, bind_assoc]
      congr
      funext v
      split
      · rw [pure_bind, if_pos rfl]
      · rfl

/-- The accumulator after the first list is the one that the second starts from. -/
theorem reduceItems_append (front back : List Value) (accumulator : Value) :
    reduceItems body (front ++ back) accumulator =
      reduceItems body front accumulator >>= reduceItems body back := by
  induction front generalizing accumulator with
  | nil => simp only [List.nil_append, reduceItems, pure_bind]
  | cons item front ih =>
      simp only [List.cons_append, reduceItems, ih, bind_assoc]

end Control

namespace Registry

variable {σ : Type}

/-- What the iterations make of two lists put together, as evaluations: with the same
values, the same errors, the same log and the same effects. -/
structure Concatenates (registry : Registry σ) (body : Value) (front back : List Value) : Prop where
  /-- An iteration is about what its source evaluates to, whatever the source is. -/
  evaluated : ∀ {name : String}, name ∈ iterators → ∀ source data : Value,
    registry.apply (iteration name source body) data = do
      let v ← registry.apply source data
      registry.iterateOver name body v
  /-- A reduction is about what its source and its initial value evaluate to. -/
  reduced : ∀ source initial data : Value,
    registry.apply (reductionOf source body initial) data = do
      let v ← registry.apply source data
      let w ← registry.apply initial data
      registry.reduceOver body v w
  /-- The values on the first list come before those on the second. -/
  map : registry.iterateOver "map" body (.list (front ++ back)) = do
    let us ← registry.iterateOver "map" body (.list front)
    let vs ← registry.iterateOver "map" body (.list back)
    return .list (us.asList ++ vs.asList)
  /-- The items kept of the first list come before those of the second. -/
  filter : registry.iterateOver "filter" body (.list (front ++ back)) = do
    let us ← registry.iterateOver "filter" body (.list front)
    let vs ← registry.iterateOver "filter" body (.list back)
    return .list (us.asList ++ vs.asList)
  /-- `some` goes on to the second list unless it is true of the first. -/
  some : registry.iterateOver "some" body (.list (front ++ back)) = do
    let v ← registry.iterateOver "some" body (.list front)
    if v.isTruthy then return v else registry.iterateOver "some" body (.list back)
  /-- `none` goes on to the second list unless it is false of the first. -/
  none : registry.iterateOver "none" body (.list (front ++ back)) = do
    let v ← registry.iterateOver "none" body (.list front)
    if v.isTruthy then registry.iterateOver "none" body (.list back) else return v
  /-- `all` goes on to the second list unless it is false of the first, when both lists
  have items. -/
  all : front ≠ [] → back ≠ [] → registry.iterateOver "all" body (.list (front ++ back)) = do
    let v ← registry.iterateOver "all" body (.list front)
    if v.isTruthy then registry.iterateOver "all" body (.list back) else return v
  /-- A list without items, of which `all` is false, does not count in a longer one. -/
  all_of_empty :
    (front = [] → registry.iterateOver "all" body (.list (front ++ back)) =
      registry.iterateOver "all" body (.list back)) ∧
    (back = [] → registry.iterateOver "all" body (.list (front ++ back)) =
      registry.iterateOver "all" body (.list front))
  /-- A reduction of the second list starts from what the first one was reduced to. -/
  reduce : ∀ initial : Value, registry.reduceOver body (.list (front ++ back)) initial = do
    let accumulator ← registry.reduceOver body (.list front) initial
    registry.reduceOver body (.list back) accumulator

variable (registry : Registry σ) (body : Value) (front back : List Value)

/-- `none` and `all` give the opposite of what a search finds, and go on to the second
list when that is true. -/
theorem search_append_negated (b : Bool) :
    (Control.search b (registry.apply body) (front ++ back) >>= fun found =>
        (pure (.bool !found) : Eval σ Value)) =
      Control.search b (registry.apply body) front >>= fun found =>
        if (Value.bool !found).isTruthy then
          Control.search b (registry.apply body) back >>= fun more => pure (.bool !more)
        else pure (.bool !found) := by
  rw [Control.search_append, bind_assoc]
  congr
  funext found
  cases found with
  | true => rfl
  | false => rfl

/-- The iterations over any two lists put together are so. -/
theorem concatenates : Concatenates registry body front back where
  evaluated := registry.apply_iteration body
  reduced := registry.apply_reductionOf body
  map := by
    simp only [iterateOver_map, Control.mapItems_append, bind_assoc, pure_bind, Value.asList]
  filter := by
    simp only [iterateOver_filter, Control.filterItems_append, bind_assoc, pure_bind, Value.asList]
  some := by
    simp only [iterateOver_some, Control.search_append, bind_assoc, pure_bind]
    congr
    funext found
    cases found with
    | true => rfl
    | false => rfl
  none := by
    simp only [iterateOver_none, search_append_negated, bind_assoc, pure_bind]
  all := by
    intro hfront hback
    have happend : front ++ back ≠ [] := List.append_ne_nil_of_left_ne_nil hfront back
    simp only [iterateOver_all _ _ hfront, iterateOver_all _ _ hback, iterateOver_all _ _ happend,
      search_append_negated, bind_assoc, pure_bind]
  all_of_empty := by
    constructor
    · rintro rfl
      rfl
    · rintro rfl
      rw [List.append_nil]
  reduce := by
    intro initial
    simp only [reduceOver_list, Control.reduceItems_append]

end Registry

end DataRules
