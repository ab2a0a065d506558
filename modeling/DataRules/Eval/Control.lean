import DataRules.Eval.Basic

set_option autoImplicit false

/-!
# Eval: control and iteration

What a rule means is a function from a data context to an evaluation.  The
operators of this module are given the meanings of their arguments and decide
which of them to evaluate, in which order, and on which data: conditions and
connectives stop as soon as the answer is known, and iteration evaluates its
second argument once for each item of its first, with the item as data.
-/

namespace DataRules

/-- What a rule means: the evaluation it amounts to on a data context. -/
abbrev Meaning (σ : Type) : Type := Value → Eval σ Value

namespace Control

variable {σ : Type}

/-- The meaning of an argument, null where there is none. -/
def argument (args : List (Meaning σ)) (i : Nat) : Meaning σ :=
  args.getD i fun _ => pure .null

/-- The values of all arguments, in order. -/
def evaluateAll (args : List (Meaning σ)) (data : Value) : Eval σ (List Value) :=
  args.mapM fun arg => arg data

theorem evaluateAll_cons (arg : Meaning σ) (args : List (Meaning σ)) (data : Value) :
    evaluateAll (arg :: args) data =
      arg data >>= fun v => evaluateAll args data >>= fun vs => pure (v :: vs) := List.mapM_cons

theorem evaluateAll_append (args more : List (Meaning σ)) (data : Value) :
    evaluateAll (args ++ more) data =
      evaluateAll args data >>= fun us => evaluateAll more data >>= fun vs => pure (us ++ vs) :=
  List.mapM_append

/-- Conditions and consequents by turns: the consequent of the first condition
that is true, else the argument left over, else null. -/
def choose : List (Meaning σ) → Meaning σ
  | [], _ => pure .null
  | [otherwise], data => otherwise data
  | condition :: consequent :: rest, data => do
      if (← condition data).isTruthy then consequent data else choose rest data

/-- The first value that is false, or the last value. -/
def conjunction : List (Meaning σ) → Meaning σ
  | [], _ => pure .null
  | [last], data => last data
  | arg :: next :: rest, data => do
      let v ← arg data
      if v.isTruthy then conjunction (next :: rest) data else pure v

/-- The first value that is true, or the last value. -/
def disjunction : List (Meaning σ) → Meaning σ
  | [], _ => pure .null
  | [last], data => last data
  | arg :: next :: rest, data => do
      let v ← arg data
      if v.isTruthy then pure v else disjunction (next :: rest) data

/-! ## Iteration over the items of a list -/

/-- The values of the body, item by item. -/
def mapItems (body : Meaning σ) : List Value → Eval σ (List Value)
  | [] => pure []
  | item :: items => do
      let v ← body item
      return v :: (← mapItems body items)

/-- The items on which the body is true. -/
def filterItems (body : Meaning σ) : List Value → Eval σ (List Value)
  | [] => pure []
  | item :: items => do
      let v ← body item
      let kept ← filterItems body items
      return if v.isTruthy then item :: kept else kept

/-- The body is true on every item; it is not evaluated past the first item on
which it is false. -/
def allItems (body : Meaning σ) : List Value → Eval σ Bool
  | [] => pure true
  | item :: items => do
      if (← body item).isTruthy then allItems body items else pure false

/-- The body is true on some item; it is not evaluated past the first such item. -/
def someItem (body : Meaning σ) : List Value → Eval σ Bool
  | [] => pure false
  | item :: items => do
      if (← body item).isTruthy then pure true else someItem body items

/-- The data context of one step of a reduction. -/
def reduction (item accumulator : Value) : Value :=
  .object [("accumulator", accumulator), ("current", item)]

/-- The accumulator after all steps, each giving the next one. -/
def reduceItems (body : Meaning σ) : List Value → Value → Eval σ Value
  | [], accumulator => pure accumulator
  | item :: items, accumulator => do
      reduceItems body items (← body (reduction item accumulator))

/-! ## The operators of iteration -/

/-- What an iteration does with the items of its source, or without a list. -/
def iterate (onItems : List Value → Eval σ Value) (otherwise : Value) (source : Value) :
    Eval σ Value :=
  match source with
  | .list items => onItems items
  | _ => pure otherwise

/-- The values of the second argument on the items of the first. -/
def map (args : List (Meaning σ)) : Meaning σ := fun data => do
  iterate (fun items => return .list (← mapItems (argument args 1) items)) (.list [])
    (← argument args 0 data)

/-- The items of the first argument on which the second one is true. -/
def filter (args : List (Meaning σ)) : Meaning σ := fun data => do
  iterate (fun items => return .list (← filterItems (argument args 1) items)) (.list [])
    (← argument args 0 data)

/-- The second argument is true on every item of the first, and there is one. -/
def forAll (args : List (Meaning σ)) : Meaning σ := fun data => do
  iterate (fun items =>
      if items.isEmpty then pure (.bool false)
      else return .bool (← allItems (argument args 1) items))
    (.bool false) (← argument args 0 data)

/-- The second argument is true on some item of the first. -/
def forSome (args : List (Meaning σ)) : Meaning σ := fun data => do
  iterate (fun items => return .bool (← someItem (argument args 1) items)) (.bool false)
    (← argument args 0 data)

/-- The second argument is true on no item of the first. -/
def forNone (args : List (Meaning σ)) : Meaning σ := fun data => do
  iterate (fun items => return .bool (!(← someItem (argument args 1) items))) (.bool true)
    (← argument args 0 data)

/-- The items of the first argument taken together by the second, starting from
the third. -/
def reduce (args : List (Meaning σ)) : Meaning σ := fun data => do
  let source ← argument args 0 data
  let initial ← argument args 2 data
  iterate (fun items => reduceItems (argument args 1) items initial) initial source

end Control

end DataRules
