import DataRules.Proofs.Eval.Builtins
import DataRules.Proofs.Number.Neutral

set_option autoImplicit false

/-!
# Neutrality: one argument more for a sum or a product

`+` takes its arguments together from zero and `*` from one, so a trailing zero or one should
change nothing.  A sum is kept, whatever its arguments are.  A product is converted to a
double and counted as a number again, which keeps it unless it is an exact integer that is no
double.
-/

namespace DataRules

open DataRules.Double (IsDouble)

namespace Builtin

/-- The integer zero, from which sums start. -/
def zero : Value := .number (.int 0)

/-- The integer one, from which products start. -/
def one : Value := .number (.int 1)

/-! ## One step more -/

theorem fold_append (op : Arithmetic) (start : Int64) (args : List Value) (v : Value) :
    fold op start (args ++ [v]) =
      .number (op.apply (fold op start args).toNumber v.toNumber) := by
  rw [fold, List.foldl_append]
  rfl

/-- A fold gives the number that it starts from or the result of its last step. -/
theorem exists_fold_eq (op : Arithmetic) (start : Int64) (args : List Value) :
    ∃ r : Number, fold op start args = .number r ∧ (r = .int start ∨ ∃ x y, r = op.apply x y) := by
  rcases List.eq_nil_or_concat args with rfl | ⟨front, last, rfl⟩
  · exact ⟨_, rfl, .inl rfl⟩
  · rw [List.concat_eq_append, fold_append]
    exact ⟨_, rfl, .inr ⟨_, _, rfl⟩⟩

theorem ofFloat_toNumber_eq_iff {r : Number} :
    Value.ofFloat (Value.number r).toNumber = .number r ↔ r.IsSettled := by
  rw [Value.ofFloat, Value.number.injEq]
  rfl

/-- A sum is kept by adding zero. -/
theorem fold_add_zero (args : List Value) : fold .add 0 (args ++ [zero]) = fold .add 0 args := by
  have hstep : fold .add 0 (args ++ [zero]) = .ofFloat (fold .add 0 args).toNumber := by
    rw [fold_append]
    exact congrArg Value.number (Arithmetic.add_zero_apply _)
  obtain ⟨r, hfold, hr⟩ := exists_fold_eq .add 0 args
  rw [hstep, hfold, ofFloat_toNumber_eq_iff]
  rcases hr with rfl | ⟨x, y, rfl⟩
  · exact Number.isSettled_int_iff.mpr ⟨_, Double.toRat?_ofInt (by decide)⟩
  · exact Arithmetic.isSettled_add x y

/-- A product is converted to a double by multiplying with one. -/
theorem fold_multiply_one (args : List Value) :
    fold .multiply 1 (args ++ [one]) = .ofFloat (fold .multiply 1 args).toNumber := by
  rw [fold_append]
  exact congrArg Value.number (Arithmetic.multiply_one _)

/-- The conversion keeps a product unless it is an integer that is no double. -/
theorem fold_multiply_kept_iff (args : List Value) :
    .ofFloat (fold .multiply 1 args).toNumber = fold .multiply 1 args ↔
      ∀ n : Int64, fold .multiply 1 args = .number (.int n) → IsDouble (n.toInt : ℚ) := by
  obtain ⟨r, hfold, hr⟩ := exists_fold_eq .multiply 1 args
  simp only [hfold, ofFloat_toNumber_eq_iff, Value.number.injEq]
  constructor
  · rintro hsettled n rfl
    exact Number.isSettled_int_iff.mp hsettled
  · intro hints
    rcases hr with rfl | ⟨x, y, rfl⟩
    · exact Number.isSettled_int_iff.mpr (hints 1 rfl)
    · exact Arithmetic.isSettled_apply hints

end Builtin

/-! ## Runs -/

/-- What is computed from the value of an evaluation changes nothing but the value. -/
theorem Eval.run_bind_pure {σ α β : Type} (m : Eval σ α) (f : α → β) (state : σ) :
    (m >>= fun a => pure (f a)).run state =
      (⟨(m.run state).1.result.map f, (m.run state).1.log⟩, (m.run state).2) := by
  rw [Eval.bind_def, Eval.run, Eval.andThen, Eval.run]
  rcases m state with ⟨⟨_ | a, log⟩, state⟩
  · rfl
  · simp [Eval.pure_def, Eval.done, Except.map]

namespace Registry

open Builtin (zero one)

variable {σ : Type}

/-- The rule that adds up some rules. -/
def sumOf (rules : List Value) : Value := .object [("+", .list rules)]

/-- The rule that multiplies some rules. -/
def productOf (rules : List Value) : Value := .object [("*", .list rules)]

/-- What a trailing zero does to a sum of some rules, and a trailing one to a product. -/
structure Neutral (σ : Type) (rules : List Value) (data : Value) : Prop where
  /-- The sum is kept, with its log, its error and its effects. -/
  sum : (builtins : Registry σ).apply (sumOf (rules ++ [zero])) data =
    builtins.apply (sumOf rules) data
  /-- The product is converted to a double and counted as a number again. -/
  product : (builtins : Registry σ).apply (productOf (rules ++ [one])) data = do
    let v ← builtins.apply (productOf rules) data
    return .ofFloat v.toNumber
  /-- The conversion keeps a run of the product unless that ends with an integer that is no
  double. -/
  product_kept_iff : ∀ state : σ,
    (builtins.apply (productOf (rules ++ [one])) data).run state =
        (builtins.apply (productOf rules) data).run state ↔
      ∀ n : Int64, ((builtins.apply (productOf rules) data).run state).1.result =
        .ok (.number (.int n)) → IsDouble (n.toInt : ℚ)

theorem apply_sumOf (rules : List Value) (data : Value) :
    (builtins : Registry σ).apply (sumOf rules) data =
      Control.evaluateAll (rules.map builtins.apply) data >>= fun args =>
        pure (Builtin.fold .add 0 args) :=
  apply_builtin rfl (invoke_builtins_of_lookup rfl data) rules

theorem apply_productOf (rules : List Value) (data : Value) :
    (builtins : Registry σ).apply (productOf rules) data =
      Control.evaluateAll (rules.map builtins.apply) data >>= fun args =>
        pure (Builtin.fold .multiply 1 args) :=
  apply_builtin rfl (invoke_builtins_of_lookup rfl data) rules

/-- An argument at the end that stands for itself comes last among the values. -/
theorem evaluateAll_append {registry : Registry σ} {v data : Value}
    (hv : registry.apply v data = pure v) (rules : List Value) :
    Control.evaluateAll ((rules ++ [v]).map registry.apply) data =
      Control.evaluateAll (rules.map registry.apply) data >>= fun args => pure (args ++ [v]) := by
  rw [List.map_append, Control.evaluateAll_append]
  simp only [Control.evaluateAll, List.map_cons, List.map_nil, List.mapM_cons, List.mapM_nil, hv,
    pure_bind]

theorem apply_sumOf_append_zero (rules : List Value) (data : Value) :
    (builtins : Registry σ).apply (sumOf (rules ++ [zero])) data =
      builtins.apply (sumOf rules) data := by
  rw [apply_sumOf, apply_sumOf, evaluateAll_append rfl, bind_assoc]
  simp only [pure_bind, Builtin.fold_add_zero]

theorem apply_productOf_append_one (rules : List Value) (data : Value) :
    (builtins : Registry σ).apply (productOf (rules ++ [one])) data =
      Control.evaluateAll (rules.map builtins.apply) data >>= fun args =>
        pure (.ofFloat (Builtin.fold .multiply 1 args).toNumber) := by
  rw [apply_productOf, evaluateAll_append rfl, bind_assoc]
  simp only [pure_bind, Builtin.fold_multiply_one]

/-- Any sum and any product behave so. -/
theorem neutral (rules : List Value) (data : Value) : Neutral σ rules data where
  sum := apply_sumOf_append_zero rules data
  product := by
    rw [apply_productOf_append_one, apply_productOf, bind_assoc]
    simp only [pure_bind]
  product_kept_iff := by
    intro state
    rw [apply_productOf_append_one, apply_productOf, Eval.run_bind_pure, Eval.run_bind_pure]
    generalize (Control.evaluateAll (rules.map builtins.apply) data).run state = ending
    rcases ending with ⟨⟨error | args, log⟩, state'⟩
    · simp [Except.map]
    · simpa [Except.map] using Builtin.fold_multiply_kept_iff args

/-- The square of an integer of eight digits is exact, and no double. -/
theorem product_not_kept :
    (builtins : Registry Unit).apply
        (productOf [.number (.int 94906267), .number (.int 94906267)]) .null =
      pure (.number (.int 9007199515875289)) ∧
    (builtins : Registry Unit).apply
        (productOf ([.number (.int 94906267), .number (.int 94906267)] ++ [one])) .null =
      pure (.number (.int 9007199515875288)) ∧
    Value.number (.int 9007199515875289) ≠ .number (.int 9007199515875288) := by
  have hsquare : Builtin.fold .multiply 1 [.number (.int 94906267), .number (.int 94906267)] =
      .number (.int 9007199515875289) :=
    congrArg Value.number (by decide +kernel)
  have hdouble : Number.ofFloat (Float.ofInt 9007199515875289) = .int 9007199515875288 := by
    decide +kernel
  have hvalues : Control.evaluateAll (List.map (builtins : Registry Unit).apply
      [.number (.int 94906267), .number (.int 94906267)]) .null =
      pure [.number (.int 94906267), .number (.int 94906267)] := rfl
  rw [apply_productOf_append_one, apply_productOf, hvalues, pure_bind, pure_bind, hsquare]
  refine ⟨rfl, congrArg (fun r => pure (Value.number r)) hdouble, fun h => ?_⟩
  exact absurd (Value.number.inj h) (by decide)

end Registry

end DataRules
