import DataRules.Proofs.Double.Integers

set_option autoImplicit false

/-!
# Comparison: which doubles have an order

Only NaN compares with nothing.  Every other double equals itself, and among those
are the doubles of all integers, rounded or infinite ones included.
-/

namespace DataRules.Double

open Float.Model

theorem unpacked_compare_eq_none_iff {u v : UnpackedFloat} :
    u.compare v = none ↔ u.isNaN = true ∨ v.isNaN = true := by
  rcases u with s | _ | s | ⟨s, _, _, _⟩ <;> rcases v with t | _ | t | ⟨t, _, _, _⟩ <;>
    (try cases s) <;> (try cases t) <;> simp [UnpackedFloat.compare, UnpackedFloat.isNaN]

/-- Two doubles have an order unless NaN is among them. -/
theorem order?_eq_none_iff {x y : Float} :
    order? x y = none ↔ x.isNaN = true ∨ y.isNaN = true :=
  unpacked_compare_eq_none_iff

/-- A double that is a number equals itself. -/
theorem order?_self {x : Float} (h : x.isNaN = false) : order? x x = some .eq := by
  have hnumber : x.toModel.unpack ≠ .notANumber := by
    intro hnan
    have htrue : x.isNaN = true := UnpackedFloat.isNaN_iff.mpr hnan
    rw [h] at htrue
    cases htrue
  have hequal : x.toModel.unpack.beq x.toModel.unpack = true :=
    (UnpackedFloat.beq_iff_ne_notANumber_and_eq _ _).mpr ⟨hnumber, hnumber, .inl rfl⟩
  exact beq_iff_eq.mp hequal

theorem IsLargeSigned.isNaN_eq {u : UnpackedFloat} (h : IsLargeSigned u) : u.isNaN = false := by
  cases h with
  | infinity s => rfl
  | finite s hpos hk => rfl

/-- The double of an integer is a number, also when the integer is rounded. -/
theorem isNaN_ofInt_eq_false (i : Int) : (Float.ofInt i).isNaN = false := by
  by_cases hsmall : i.natAbs < 2 ^ 53
  · exact isNaN_ofInt hsmall
  · exact (isLargeSigned_ofInt (Nat.le_of_not_lt hsmall)).isNaN_eq

end DataRules.Double
