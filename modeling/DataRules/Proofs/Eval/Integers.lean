import DataRules.Proofs.Eval.Mirror
import DataRules.Proofs.Number.Integers

set_option autoImplicit false

/-!
# Integers: sums, products and differences of integers

A sum or a product is taken from the left, each result becoming the first operand of the
next step.  As long as neither an operand nor a result on the way is beyond `2 ^ 53` in
magnitude, every step is exact, so the whole is; and then the order of the operands does
not matter.
-/

namespace DataRules

open DataRules.Double

namespace Builtin

/-- Every step of a fold from the left is exact while the results on the way are in reach. -/
theorem foldl_isInt {op : Arithmetic} {f : Int → Int → Int}
    (hstep : ∀ {a b : Int}, IsExact a → IsExact b → IsExact (f a b) →
      op.Meets (Float.ofInt a) (Float.ofInt b) (f a b))
    {ns : List Int64} : ∀ {start : Int64}, (∀ n ∈ ns, IsExact n.toInt) →
      (∀ part, part <+: ns → IsExact ((part.map Int64.toInt).foldl f start.toInt)) →
      (ns.foldl (fun total n => op.apply total.toFloat (Float.ofInt n.toInt)) (.int start)).IsInt
        ((ns.map Int64.toInt).foldl f start.toInt) := by
  induction ns with
  | nil => exact fun _ _ => ⟨_, rfl, rfl⟩
  | cons n ns ih =>
      intro start hoperands hparts
      have hstart : IsExact start.toInt := hparts [] List.nil_prefix
      have hnext : IsExact (f start.toInt n.toInt) := hparts [n] (List.prefix_append [n] ns)
      have happly := (hstep hstart (hoperands n List.mem_cons_self) hnext).apply
      obtain ⟨next, hvalue, hresult⟩ := happly
      simp only [List.foldl_cons, List.map_cons, Number.toFloat]
      rw [hresult, ← hvalue]
      refine ih (fun m hm => hoperands m (List.mem_cons_of_mem _ hm)) fun part hpart => ?_
      rw [hvalue]
      exact hparts (n :: part) (List.cons_prefix_cons.mpr ⟨rfl, hpart⟩)

/-- The values of integers. -/
def ofInts (ns : List Int64) : List Value := ns.map fun n => .number (.int n)

theorem fold_ofInts (op : Arithmetic) (start : Int64) (ns : List Int64) :
    fold op start (ofInts ns) = .number
      (ns.foldl (fun total n => op.apply total.toFloat (Float.ofInt n.toInt)) (.int start)) := by
  rw [fold, ofInts, List.foldl_map]
  rfl

end Builtin

namespace Registry

/-- The rules have the integers for their values. -/
def HaveInts (rules : List Value) (data : Value) (ns : List Int64) : Prop :=
  List.Forall₂ (fun rule n => HasValue rule data (.number (.int n))) rules ns

/-- The operation answers with the integer. -/
def AnswersInt (name : String) (rules : List Value) (data : Value) (i : Int) : Prop :=
  ∃ n : Int64, n.toInt = i ∧ answer name rules data = .ok (.number (.int n))

/-- Neither an integer of the list nor what `total` makes of a beginning of the list is
beyond `2 ^ 53` in magnitude. -/
structure StaysExact (total : List Int → Int) (ns : List Int64) : Prop where
  operands : ∀ n ∈ ns, IsExact n.toInt
  beginnings : ∀ part, part <+: ns → IsExact (total (part.map Int64.toInt))

/-- How the operations answer on rules that have integers for their values. -/
structure ExactOn (rules : List Value) (data : Value) (ns : List Int64) : Prop where
  sum : StaysExact List.sum ns → AnswersInt "+" rules data (ns.map Int64.toInt).sum
  product : StaysExact List.prod ns → AnswersInt "*" rules data (ns.map Int64.toInt).prod
  difference : ∀ a b : Int64, ns = [a, b] → IsExact a.toInt → IsExact b.toInt →
    IsExact (a.toInt - b.toInt) → AnswersInt "-" rules data (a.toInt - b.toInt)
  negation : ∀ a : Int64, ns = [a] → IsExact a.toInt → AnswersInt "-" rules data (-a.toInt)
  /-- The same integers in another order have the same sum. -/
  sum_order : ∀ {rules' : List Value} {ns' : List Int64}, HaveInts rules' data ns' →
    ns.Perm ns' → StaysExact List.sum ns → StaysExact List.sum ns' →
    answer "+" rules data = answer "+" rules' data
  /-- The same integers in another order have the same product. -/
  product_order : ∀ {rules' : List Value} {ns' : List Int64}, HaveInts rules' data ns' →
    ns.Perm ns' → StaysExact List.prod ns → StaysExact List.prod ns' →
    answer "*" rules data = answer "*" rules' data
  /-- No step depends on the way it is computed. -/
  steps : ∀ {a b : Int}, IsExact a → IsExact b →
    (IsExact (a + b) → Arithmetic.add.Meets (Float.ofInt a) (Float.ofInt b) (a + b)) ∧
    (IsExact (a * b) → Arithmetic.multiply.Meets (Float.ofInt a) (Float.ofInt b) (a * b)) ∧
    (IsExact (a - b) → Arithmetic.subtract.Meets (Float.ofInt a) (Float.ofInt b) (a - b))

variable {rules rules' : List Value} {data : Value} {ns ns' : List Int64}

/-- An operation answers with what its function makes of the integers. -/
theorem answer_of_ints {name : String} (hkeyword : Keyword.ofName? name = none)
    {f : List Value → Value}
    (hentry : ∀ args, (builtins : Registry Unit).invoke name data args = Builtin.plain f args)
    (hints : HaveInts rules data ns) : answer name rules data = .ok (f (Builtin.ofInts ns)) := by
  refine result_of_values hkeyword hentry (values_of_results ?_)
  rw [Builtin.ofInts, List.forall₂_map_right_iff]
  exact hints

/-- A fold over integers answers with the integer. -/
theorem answersInt_fold {name : String} (hkeyword : Keyword.ofName? name = none)
    {op : Arithmetic} {start : Int64} (hentry : ∀ args,
      (builtins : Registry Unit).invoke name data args = Builtin.plain (Builtin.fold op start) args)
    {f : Int → Int → Int} (hstep : ∀ {a b : Int}, IsExact a → IsExact b → IsExact (f a b) →
      op.Meets (Float.ofInt a) (Float.ofInt b) (f a b))
    {total : List Int → Int} (htotal : ∀ is : List Int, is.foldl f start.toInt = total is)
    (hints : HaveInts rules data ns) (hexact : StaysExact total ns) :
    AnswersInt name rules data (total (ns.map Int64.toInt)) := by
  have hparts : ∀ part, part <+: ns → IsExact ((part.map Int64.toInt).foldl f start.toInt) := by
    intro part hpart
    rw [htotal]
    exact hexact.beginnings part hpart
  obtain ⟨n, hn, hresult⟩ := Builtin.foldl_isInt hstep hexact.operands hparts
  rw [htotal] at hn
  refine ⟨n, hn, ?_⟩
  rw [answer_of_ints hkeyword hentry hints, Builtin.fold_ofInts, hresult]

theorem answersInt_sum (hints : HaveInts rules data ns) (hexact : StaysExact List.sum ns) :
    AnswersInt "+" rules data (ns.map Int64.toInt).sum :=
  answersInt_fold rfl (fun _ => rfl) Arithmetic.add_meets (fun _ => List.sum_eq_foldl.symm) hints
    hexact

theorem answersInt_product (hints : HaveInts rules data ns) (hexact : StaysExact List.prod ns) :
    AnswersInt "*" rules data (ns.map Int64.toInt).prod :=
  answersInt_fold rfl (fun _ => rfl) Arithmetic.multiply_meets (fun _ => List.prod_eq_foldl.symm)
    hints hexact

/-- Two answers with one integer are the same. -/
theorem AnswersInt.unique {name : String} {i : Int} (h : AnswersInt name rules data i)
    (h' : AnswersInt name rules' data i) : answer name rules data = answer name rules' data := by
  obtain ⟨n, hn, hanswer⟩ := h
  obtain ⟨n', hn', hanswer'⟩ := h'
  have hsame : n = n' := Int64.toInt.inj (hn.trans hn'.symm)
  rw [hanswer, hanswer', hsame]

/-- Sums, products and differences of integers are exact while everything on the way stays
within `2 ^ 53`. -/
theorem integers_exact (hints : HaveInts rules data ns) : ExactOn rules data ns where
  sum := answersInt_sum hints
  product := answersInt_product hints
  difference := by
    rintro a b rfl ha hb hdifference
    obtain ⟨n, hn, hresult⟩ := (Arithmetic.subtract_meets ha hb hdifference).apply
    refine ⟨n, hn, ?_⟩
    rw [answer_of_ints rfl (fun _ => rfl) hints, ← hresult]
    rfl
  negation := by
    rintro a rfl ha
    obtain ⟨n, hn, hresult⟩ := Arithmetic.isInt_neg ha
    refine ⟨n, hn, ?_⟩
    rw [answer_of_ints rfl (fun _ => rfl) hints, ← hresult]
    rfl
  sum_order := by
    intro rules' ns' hints' hperm hexact hexact'
    have hsame : (ns.map Int64.toInt).sum = (ns'.map Int64.toInt).sum := (hperm.map _).sum_eq
    exact (hsame ▸ answersInt_sum hints hexact).unique (answersInt_sum hints' hexact')
  product_order := by
    intro rules' ns' hints' hperm hexact hexact'
    have hsame : (ns.map Int64.toInt).prod = (ns'.map Int64.toInt).prod := (hperm.map _).prod_eq
    exact (hsame ▸ answersInt_product hints hexact).unique (answersInt_product hints' hexact')
  steps := fun ha hb =>
    ⟨Arithmetic.add_meets ha hb, Arithmetic.multiply_meets ha hb, Arithmetic.subtract_meets ha hb⟩

/-- A sum that has 15 digits, then 16, and then few again. -/
theorem integers_exact_pastFifteenDigits :
    let ns : List Int64 := [999999999999999, 9000, -1000000000000000]
    HaveInts (Builtin.ofInts ns) .null ns ∧ StaysExact List.sum ns ∧
      AnswersInt "+" (Builtin.ofInts ns) .null 8999 := by
  intro ns
  have hints : HaveInts (Builtin.ofInts ns) .null ns := .cons rfl (.cons rfl (.cons rfl .nil))
  have hexact : StaysExact List.sum ns := by
    have hoperands : ∀ n ∈ ns, IsExact n.toInt := by simp [ns, IsExact]
    have hparts : ∀ part ∈ ns.inits, IsExact (part.map Int64.toInt).sum := by simp [ns, IsExact]
    exact ⟨hoperands, fun part hpart => hparts part ((List.mem_inits part ns).mpr hpart)⟩
  exact ⟨hints, hexact, (integers_exact hints).sum hexact⟩

end Registry

end DataRules
