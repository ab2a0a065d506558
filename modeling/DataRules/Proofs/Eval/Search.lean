import DataRules.Eval.Engine

set_option autoImplicit false

/-!
# Search: connectives and quantifiers as one loop each

`and` looks for a false argument and `or` for a true one; `all` looks for an item
on which its body is false, `some` and `none` for one on which it is true.  The
connectives are one search through arguments, and the quantifiers one search
through items, for the truth that decides them.
-/

namespace DataRules.Control

variable {σ : Type}

/-- The first value with the truth `b`, or the last value. -/
def firstWith (b : Bool) : List (Meaning σ) → Meaning σ
  | [], _ => pure .null
  | [last], data => last data
  | arg :: next :: rest, data => do
      let v ← arg data
      if v.isTruthy = b then pure v else firstWith b (next :: rest) data

theorem conjunction_eq_firstWith : (args : List (Meaning σ)) → (data : Value) →
    conjunction args data = firstWith false args data
  | [], _ => rfl
  | [_], _ => rfl
  | arg :: next :: rest, data => by
      rw [conjunction, firstWith]
      congr
      funext v
      rw [conjunction_eq_firstWith (next :: rest)]
      cases v.isTruthy <;> rfl

theorem disjunction_eq_firstWith : (args : List (Meaning σ)) → (data : Value) →
    disjunction args data = firstWith true args data
  | [], _ => rfl
  | [_], _ => rfl
  | arg :: next :: rest, data => by
      rw [disjunction, firstWith]
      congr
      funext v
      rw [disjunction_eq_firstWith (next :: rest)]

/-- Whether the body has the truth `b` on some item; it is not evaluated past the
first such item. -/
def search (b : Bool) (body : Meaning σ) : List Value → Eval σ Bool
  | [] => pure false
  | item :: items => do
      if (← body item).isTruthy = b then pure true else search b body items

theorem someItem_eq_search (body : Meaning σ) (items : List Value) :
    someItem body items = search true body items := by
  induction items with
  | nil => rfl
  | cons item items ih => rw [someItem, search, ih]

/-- The body is true on all items when the search for one on which it is false
fails. -/
theorem allItems_eq_search (body : Meaning σ) (items : List Value) :
    allItems body items = do return !(← search false body items) := by
  induction items with
  | nil => rfl
  | cons item items ih =>
      rw [allItems, search, ih, bind_assoc]
      congr
      funext v
      cases v.isTruthy with
      | false => rw [if_pos rfl, pure_bind]; rfl
      | true => rfl

end DataRules.Control

namespace DataRules.Registry

open DataRules.Control

variable {σ : Type}

/-- The rule that gives the first false one of some rules, or the last. -/
def conjunctionOf (rules : List Value) : Value := .object [("and", .list rules)]

/-- The rule that gives the first true one of some rules, or the last. -/
def disjunctionOf (rules : List Value) : Value := .object [("or", .list rules)]

theorem apply_conjunctionOf (registry : Registry σ) (rules : List Value) :
    registry.apply (conjunctionOf rules) = firstWith false (rules.map registry.apply) := by
  funext data
  rw [conjunctionOf, apply_operation, ← conjunction_eq_firstWith]
  rfl

theorem apply_disjunctionOf (registry : Registry σ) (rules : List Value) :
    registry.apply (disjunctionOf rules) = firstWith true (rules.map registry.apply) := by
  funext data
  rw [disjunctionOf, apply_operation, ← disjunction_eq_firstWith]
  rfl

end DataRules.Registry
