import DataRules.Proofs.Double.Comparison
import DataRules.Proofs.Value.Renumbered

set_option autoImplicit false

/-!
# Agreement: loose equality and order

Loose equality and the order of two values are two procedures.  Both bring the
values to a common kind, a text or a number, and there they give one answer: with
null and pairs of containers left aside, two values are loosely equal when they
compare as equal.

There is one exception.  Two integers are equal when they are the same integer, but
they are ordered as doubles, and from `2 ^ 53` on several integers round to one
double.  `Number.Blurs` says that this happens; a pair with a number below the
bound never blurs.
-/

namespace DataRules

open DataRules.Double

namespace Number

/-- The two are different integers that round to one double. -/
def Blurs (m n : Number) : Prop :=
  ∃ i j : Int64, m = .int i ∧ n = .int j ∧ i ≠ j ∧
    isEqual (Float.ofInt i.toInt) (Float.ofInt j.toInt) = true

/-- An integer below `2 ^ 53` in magnitude is the only one that rounds to its
double. -/
theorem not_blurs_of_lt {i : Int64} (hsmall : i.toInt.natAbs < 2 ^ 53) (n : Number) :
    ¬(Number.int i).Blurs n := by
  rintro ⟨_, j, ⟨⟩, -, hne, hequal⟩
  rw [isEqual_ofInt hsmall, decide_eq_true_iff, Int64.toInt_inj] at hequal
  exact hne hequal

/-- The bound is sharp. -/
theorem blurs_past_exact : (Number.int 9007199254740992).Blurs (.int 9007199254740993) :=
  ⟨_, _, rfl, rfl, by decide, by decide⟩

theorem Blurs.symm {m n : Number} (h : m.Blurs n) : n.Blurs m := by
  obtain ⟨i, j, hm, hn, hne, hequal⟩ := h
  exact ⟨j, i, hn, hm, hne.symm, by rwa [isEqual_comm]⟩

/-- Numbers that blur are the same double and yet not equal. -/
theorem Blurs.order?_eq {m n : Number} (h : m.Blurs n) :
    order? m.toFloat n.toFloat = some .eq := by
  obtain ⟨i, j, rfl, rfl, -, hequal⟩ := h
  exact beq_iff_eq.mp hequal

/-- Two numbers are equal when they are the same double and do not blur. -/
theorem equals_iff {m n : Number} :
    m.equals n = true ↔ order? m.toFloat n.toFloat = some .eq ∧ ¬m.Blurs n := by
  have hmixed : ∀ {m n : Number}, m.equals n = isEqual m.toFloat n.toFloat → ¬m.Blurs n →
      (m.equals n = true ↔ order? m.toFloat n.toFloat = some .eq ∧ ¬m.Blurs n) := by
    intro m n hequals hblurs
    rw [hequals, isEqual, beq_iff_eq]
    exact (and_iff_left hblurs).symm
  cases m with
  | float x =>
      refine hmixed (by cases n <;> rfl) ?_
      rintro ⟨i, j, hm, -⟩
      cases hm
  | int i =>
      cases n with
      | float y =>
          refine hmixed rfl ?_
          rintro ⟨i, j, -, hn, -⟩
          cases hn
      | int j =>
          rw [Number.equals, beq_iff_eq]
          constructor
          · rintro rfl
            refine ⟨order?_self (isNaN_ofInt_eq_false i.toInt), ?_⟩
            rintro ⟨_, _, ⟨⟩, ⟨⟩, hne, -⟩
            exact hne rfl
          · rintro ⟨horder, hblurs⟩
            by_contra hne
            exact hblurs ⟨i, j, rfl, rfl, hne, beq_iff_eq.mpr horder⟩

end Number

namespace Value

/-- The two are numbers that blur. -/
def Blurs (a b : Value) : Prop := ∃ m n : Number, a = .number m ∧ b = .number n ∧ m.Blurs n

theorem number_blurs_iff {m n : Number} : (Value.number m).Blurs (.number n) ↔ m.Blurs n := by
  constructor
  · rintro ⟨_, _, ⟨⟩, ⟨⟩, hblurs⟩
    exact hblurs
  · intro hblurs
    exact ⟨m, n, rfl, rfl, hblurs⟩

/-! ## The common kind

A value that is not null is compared as a text or as a number, which is
`v.unBoolean.primitive`.  Neither its order nor whether it blurs depends on that
step. -/

/-- A value that is not null is compared as a text or as a number. -/
theorem text_or_number {v : Value} (h : v.isNull = false) :
    (∃ s, v.unBoolean.primitive = .text s) ∨ ∃ n, v.unBoolean.primitive = .number n := by
  cases v with
  | null => cases h
  | bool b => exact Or.inr ⟨_, rfl⟩
  | number n => exact Or.inr ⟨n, rfl⟩
  | text s => exact Or.inl ⟨s, rfl⟩
  | list items => exact Or.inl ⟨_, rfl⟩
  | object fields => exact Or.inl ⟨_, rfl⟩

theorem toNumber_unBoolean (v : Value) : v.unBoolean.toNumber = v.toNumber := by
  cases v with
  | bool b => cases b <;> rfl
  | _ => rfl

theorem primitive_unBoolean (v : Value) : v.unBoolean.primitive = v.primitive.unBoolean := by
  cases v <;> rfl

theorem primitive_primitive (v : Value) : v.primitive.primitive = v.primitive := by
  cases v <;> rfl

theorem order?_primitive (a b : Value) : a.primitive.order? b.primitive = a.order? b := by
  rw [order?, order?, primitive_primitive, primitive_primitive]

theorem order?_unBoolean (a b : Value) : a.unBoolean.order? b.unBoolean = a.order? b := by
  have hnumbers : Double.order? a.primitive.unBoolean.toNumber b.primitive.unBoolean.toNumber =
      Double.order? a.primitive.toNumber b.primitive.toNumber := by
    rw [toNumber_unBoolean, toNumber_unBoolean]
  unfold order?
  rw [primitive_unBoolean, primitive_unBoolean]
  generalize a.primitive = p at hnumbers ⊢
  generalize b.primitive = q at hnumbers ⊢
  cases p with
  | text s =>
      cases q with
      | text t => rfl
      | _ => exact hnumbers
  | _ => exact hnumbers

/-- The number that a boolean counts as is small. -/
theorem not_blurs_boolean (b : Bool) (n : Number) :
    ¬(Number.int (if b then 1 else 0)).Blurs n := by
  cases b with
  | false => exact Number.not_blurs_of_lt (by decide) n
  | true => exact Number.not_blurs_of_lt (by decide) n

/-- Turning a boolean into a number makes no pair that blurs. -/
theorem Blurs.of_unBoolean {a b : Value} (h : a.unBoolean.Blurs b.unBoolean) : a.Blurs b := by
  obtain ⟨m, n, ha, hb, hblurs⟩ := h
  cases a with
  | bool p =>
      obtain rfl := Value.number.inj ha
      exact absurd hblurs (not_blurs_boolean p n)
  | number m' =>
      cases b with
      | bool q =>
          obtain rfl := Value.number.inj hb
          exact absurd hblurs.symm (not_blurs_boolean q m)
      | number n' => exact ⟨m, n, ha, hb, hblurs⟩
      | _ => cases hb
  | _ => cases ha

theorem number_of_primitive {v : Value} {n : Number} (h : v.primitive = .number n) :
    v = .number n := by
  cases v with
  | list items => cases h
  | object fields => cases h
  | _ => exact h

theorem blurs_primitive_iff {a b : Value} :
    a.unBoolean.primitive.Blurs b.unBoolean.primitive ↔ a.Blurs b := by
  constructor
  · rintro ⟨m, n, ha, hb, hblurs⟩
    exact Blurs.of_unBoolean ⟨m, n, number_of_primitive ha, number_of_primitive hb, hblurs⟩
  · rintro ⟨m, n, rfl, rfl, hblurs⟩
    exact ⟨m, n, rfl, rfl, hblurs⟩

/-! ## Equality and order -/

/-- Texts and numbers match when they compare as equal and do not blur. -/
theorem scalarsMatch_iff {p q : Value} (hp : (∃ s, p = .text s) ∨ ∃ m, p = .number m)
    (hq : (∃ t, q = .text t) ∨ ∃ n, q = .number n) :
    scalarsMatch p q = true ↔ p.order? q = some .eq ∧ ¬p.Blurs q := by
  have hmixed : (p.order? q = Double.order? p.toNumber q.toNumber) →
      scalarsMatch p q = isEqual p.toNumber q.toNumber → ¬p.Blurs q →
      (scalarsMatch p q = true ↔ p.order? q = some .eq ∧ ¬p.Blurs q) := by
    intro horder hmatch hblurs
    rw [hmatch, horder, isEqual, beq_iff_eq]
    exact (and_iff_left hblurs).symm
  rcases hp with ⟨s, rfl⟩ | ⟨m, rfl⟩
  · rcases hq with ⟨t, rfl⟩ | ⟨n, rfl⟩
    · have horder : (Value.text s).order? (.text t) = some (compare s t) := rfl
      rw [scalarsMatch, horder, beq_iff_eq, Option.some_inj, Std.compare_eq_iff_eq]
      refine (and_iff_left ?_).symm
      rintro ⟨m, n, hm, -⟩
      cases hm
    · refine hmixed rfl rfl ?_
      rintro ⟨m, n, hm, -⟩
      cases hm
  · rcases hq with ⟨t, rfl⟩ | ⟨n, rfl⟩
    · refine hmixed rfl rfl ?_
      rintro ⟨m, n, -, hn, -⟩
      cases hn
    · rw [scalarsMatch, Number.equals_iff, number_blurs_iff]
      rfl

/-- Two values, neither null and not both containers, are loosely equal when they
compare as equal and do not blur. -/
theorem looselyEquals_iff {a b : Value} (ha : a.isNull = false) (hb : b.isNull = false)
    (hcontainers : (a.isContainer && b.isContainer) = false) :
    a.looselyEquals b = true ↔ a.order? b = some .eq ∧ ¬a.Blurs b := by
  rw [looselyEquals, ha, hb, hcontainers, ← order?_unBoolean, ← order?_primitive,
    ← blurs_primitive_iff]
  exact scalarsMatch_iff (text_or_number ha) (text_or_number hb)

/-- Two numbers are equal when they compare as equal and do not blur. -/
theorem equals_number_iff {m n : Number} :
    (Value.number m).equals (.number n) = true ↔
      (Value.number m).order? (.number n) = some .eq ∧ ¬(Value.number m).Blurs (.number n) := by
  rw [equals, Number.equals_iff, number_blurs_iff]
  rfl

/-- Values that blur compare as equal, but no equality takes them for equal. -/
theorem Blurs.ordered_not_equal {a b : Value} (h : a.Blurs b) :
    a.order? b = some .eq ∧ a.looselyEquals b = false ∧ a.equals b = false := by
  obtain ⟨m, n, rfl, rfl, hblurs⟩ := id h
  refine ⟨hblurs.order?_eq, ?_, ?_⟩
  · rw [← Bool.not_eq_true, looselyEquals_iff rfl rfl rfl]
    exact fun hequal => hequal.2 h
  · rw [← Bool.not_eq_true, equals_number_iff]
    exact fun hequal => hequal.2 h

end Value

end DataRules
