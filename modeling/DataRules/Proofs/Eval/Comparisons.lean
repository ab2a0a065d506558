import DataRules.Proofs.Eval.Builtins
import DataRules.Proofs.Eval.Frugality
import DataRules.Proofs.Value.Agreement

set_option autoImplicit false

/-!
# Comparisons: the built-in comparisons of two rules

A built-in comparison evaluates its two arguments and compares their values.  With
null and pairs of containers left aside, `==` says what `<=` and `>=` say together;
and of two numbers the first is smaller, or they are equal, or it is greater.

Integers beyond `2 ^ 53` fall out of this.  `==` and `===` compare two of them
exactly, the relations compare them as doubles, so that two different integers can be
within each other's bounds and yet neither equal nor in order.  `Value.Blurs` is the
exact condition.
-/

namespace DataRules.Registry

/-- The built-in comparison of the two rules is true on the data context. -/
def Holds (name : String) (x y data : Value) : Prop :=
  (builtins.outcome (.object [(name, .list [x, y])]) data).result = .ok (.bool true)

/-- Exactly one of the three is the case. -/
def ExactlyOne (p q r : Prop) : Prop :=
  (p ∧ ¬q ∧ ¬r) ∨ (¬p ∧ q ∧ ¬r) ∨ (¬p ∧ ¬q ∧ r)

/-- How the comparisons of two rules with the values `a` and `b` go together. -/
structure Agrees (x y data a b : Value) : Prop where
  /-- Loose equality is being within both bounds, unless the values blur. -/
  equality : a.isNull = false → b.isNull = false → (a.isContainer && b.isContainer) = false →
    (Holds "==" x y data ↔ Holds "<=" x y data ∧ Holds ">=" x y data ∧ ¬a.Blurs b)
  /-- Two numbers that do not blur are equal or in one order. -/
  trichotomy : ∀ m n : Number, a = .number m → b = .number n →
    m.toFloat.isNaN = false → n.toFloat.isNaN = false → ¬a.Blurs b →
    ExactlyOne (Holds "<" x y data) (Holds "===" x y data) (Holds ">" x y data)
  /-- Two numbers that blur are within both bounds, and neither equal nor in order. -/
  blurred : a.Blurs b →
    (Holds "<=" x y data ∧ Holds ">=" x y data ∧ ¬Holds "==" x y data) ∧
      ¬Holds "<" x y data ∧ ¬Holds "===" x y data ∧ ¬Holds ">" x y data

variable {x y data a b : Value}

/-- The values of rules that all have one. -/
theorem values_of_results {registry : Registry Unit} {rules vs : List Value}
    (h : List.Forall₂ (fun rule v => (registry.outcome rule data).result = .ok v) rules vs) :
    registry.values rules data = .ok vs := by
  induction h with
  | nil => rfl
  | cons hfirst _ ih =>
      rw [values] at ih ⊢
      rw [List.mapM_cons, hfirst, ih]
      rfl

/-- A built-in operation that does nothing but compute gives what its function makes of
the values of the arguments. -/
theorem result_of_values {name : String} (hkeyword : Keyword.ofName? name = none)
    {f : List Value → Value}
    (hentry : ∀ args, (builtins : Registry Unit).invoke name data args = Builtin.plain f args)
    {rules vs : List Value} (hvalues : (builtins : Registry Unit).values rules data = .ok vs) :
    (builtins.outcome (.object [(name, .list rules)]) data).result = .ok (f vs) := by
  rw [outcome, apply_builtin hkeyword hentry, Eval.outcome_bind,
    Outcome.andThen_of_ok ((result_values rules data).trans hvalues)]
  rfl

/-- The built-in operation is called with the values of the two rules. -/
theorem holds_iff {name : String} (hkeyword : Keyword.ofName? name = none)
    {f : List Value → Value}
    (hentry : ∀ args, (builtins : Registry Unit).invoke name data args = Builtin.plain f args)
    {c : Bool} (hvalue : f [a, b] = .bool c) (hx : (builtins.outcome x data).result = .ok a)
    (hy : (builtins.outcome y data).result = .ok b) : Holds name x y data ↔ c = true := by
  have hvalues : (builtins : Registry Unit).values [x, y] data = .ok [a, b] :=
    values_of_results (.cons hx (.cons hy .nil))
  rw [Holds, result_of_values hkeyword hentry hvalues, hvalue]
  simp only [Except.ok.injEq, Value.bool.injEq]

/-- Comparing as equal is being within both bounds. -/
theorem eq_iff_within (order : Option Ordering) :
    order = some .eq ↔ order.any (· != .gt) = true ∧ order.any (· != .lt) = true := by
  rcases order with _ | _ | _ | _ <;> decide

/-- What each comparison says about the values of the two rules. -/
theorem comparisons_iff (hx : (builtins.outcome x data).result = .ok a)
    (hy : (builtins.outcome y data).result = .ok b) :
    (Holds "==" x y data ↔ a.looselyEquals b = true) ∧
    (Holds "===" x y data ↔ a.equals b = true) ∧
    (Holds "<" x y data ↔ (a.order? b).any (· == .lt) = true) ∧
    (Holds ">" x y data ↔ (a.order? b).any (· == .gt) = true) ∧
    (Holds "<=" x y data ↔ (a.order? b).any (· != .gt) = true) ∧
    (Holds ">=" x y data ↔ (a.order? b).any (· != .lt) = true) := by
  refine ⟨?_, ?_, ?_, ?_, ?_, ?_⟩ <;> exact holds_iff rfl (fun _ => rfl) rfl hx hy

/-- Values that blur are within both bounds, and neither equal nor in order. -/
theorem holds_of_blurs (hx : (builtins.outcome x data).result = .ok a)
    (hy : (builtins.outcome y data).result = .ok b) (hblurs : a.Blurs b) :
    (Holds "<=" x y data ∧ Holds ">=" x y data ∧ ¬Holds "==" x y data) ∧
      ¬Holds "<" x y data ∧ ¬Holds "===" x y data ∧ ¬Holds ">" x y data := by
  obtain ⟨hloose, hstrict, hlt, hgt, hle, hge⟩ := comparisons_iff hx hy
  obtain ⟨horder, hnotLoose, hnotStrict⟩ := hblurs.ordered_not_equal
  rw [hloose, hstrict, hlt, hgt, hle, hge, horder, hnotLoose, hnotStrict]
  decide

/-- The comparisons of two rules agree on equality and order, but where the values are
integers that blur. -/
theorem comparisons_agree (hx : (builtins.outcome x data).result = .ok a)
    (hy : (builtins.outcome y data).result = .ok b) : Agrees x y data a b := by
  obtain ⟨hloose, hstrict, hlt, hgt, hle, hge⟩ := comparisons_iff hx hy
  constructor
  case equality =>
    intro ha hb hcontainers
    rw [hloose, hle, hge, Value.looselyEquals_iff ha hb hcontainers, eq_iff_within, and_assoc]
  case trichotomy =>
    rintro m n rfl rfl hm hn hblurs
    rw [hlt, hgt, hstrict, Value.equals_number_iff, and_iff_left hblurs]
    cases horder : (Value.number m).order? (.number n) with
    | none =>
        rcases Double.order?_eq_none_iff.mp horder with hnan | hnan
        · exact absurd hnan (Bool.eq_false_iff.mp hm)
        · exact absurd hnan (Bool.eq_false_iff.mp hn)
    | some order => cases order <;> simp [ExactlyOne]
  case blurred => exact holds_of_blurs hx hy

/-- A text taken from the data agrees with a number. -/
theorem comparisons_agree_paid :
    (builtins.outcome (.object [("var", .text "paid")])
      (.object [("paid", .text "12")])).result = .ok (.text "12") ∧
    (builtins.outcome (.number (.int 12)) (.object [("paid", .text "12")])).result =
      .ok (.number (.int 12)) ∧
    Agrees (.object [("var", .text "paid")]) (.number (.int 12)) (.object [("paid", .text "12")])
      (.text "12") (.number (.int 12)) :=
  ⟨rfl, rfl, comparisons_agree rfl rfl⟩

/-- The integers `2 ^ 53` and `2 ^ 53 + 1` are within both bounds, but they are not
equal, and neither comes first. -/
theorem disagreement_past_exact :
    let x := Value.number (.int 9007199254740992)
    let y := Value.number (.int 9007199254740993)
    ¬(Holds "==" x y .null ↔ Holds "<=" x y .null ∧ Holds ">=" x y .null) ∧
      ¬ExactlyOne (Holds "<" x y .null) (Holds "===" x y .null) (Holds ">" x y .null) := by
  intro x y
  have hblurs : x.Blurs y := Value.number_blurs_iff.mpr Number.blurs_past_exact
  have hx : (builtins.outcome x .null).result = .ok x := rfl
  have hy : (builtins.outcome y .null).result = .ok y := rfl
  obtain ⟨⟨hle, hge, hloose⟩, hlt, hstrict, hgt⟩ := holds_of_blurs hx hy hblurs
  constructor
  · intro hagree
    exact hloose (hagree.mpr ⟨hle, hge⟩)
  · rintro (h | h | h)
    · exact hlt h.1
    · exact hstrict h.2.1
    · exact hgt h.2.2

end DataRules.Registry
