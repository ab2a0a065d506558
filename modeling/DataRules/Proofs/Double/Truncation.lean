import DataRules.Proofs.Double.Operations

set_option autoImplicit false

/-!
# Truncation: doubles as positions

Cut toward zero a double is an integer, or it is infinite and lies past all of them on
one side; NaN counts as zero.  A cut that is brought into a range first and used as a
position within that range afterwards is as good as the cut itself.
-/

namespace DataRules.Double

open Float.Model

/-- The integers with one end below and one above all of them. -/
abbrev Extended : Type := WithBot (WithTop ℤ)

/-- An integer among the extended ones. -/
def Extended.ofInt (i : ℤ) : Extended := ((i : WithTop ℤ) : WithBot (WithTop ℤ))

namespace Extended

variable {i j : ℤ}

theorem ofInt_zero : ofInt 0 = 0 := rfl

theorem ofInt_inj : ofInt i = ofInt j ↔ i = j := by
  simp [ofInt]

theorem eq_bot_or_eq_top_or_ofInt (e : Extended) : e = ⊥ ∨ e = ⊤ ∨ ∃ i, e = ofInt i := by
  rcases e with _ | _ | i
  · exact .inl rfl
  · exact .inr (.inl rfl)
  · exact .inr (.inr ⟨i, rfl⟩)

theorem ofInt_lt_ofInt : ofInt i < ofInt j ↔ i < j := by
  simp [ofInt]

theorem bot_lt_ofInt : ⊥ < ofInt i := WithBot.bot_lt_coe _

theorem ofInt_add_top (i : ℤ) : ofInt i + ⊤ = ⊤ := rfl

theorem ofInt_add (i j : ℤ) : ofInt i + ofInt j = ofInt (i + j) := rfl

theorem ofInt_min (i j : ℤ) : min (ofInt i) (ofInt j) = ofInt (min i j) := by
  rfl

theorem ofInt_max (i j : ℤ) : max (ofInt i) (ofInt j) = ofInt (max i j) := by
  rfl

end Extended

/-- The integer part of a number, which is cut toward zero. -/
def truncated (q : ℚ) : ℤ := if 0 ≤ q then ⌊q⌋ else ⌈q⌉

/-- A double cut toward zero; NaN is zero. -/
def cut (x : Float) : Extended :=
  match toRat? x with
  | some q => .ofInt (truncated q)
  | none => if x.isNaN then .ofInt 0 else if x < 0 then ⊥ else ⊤

theorem truncated_of_nonneg {q : ℚ} (h : 0 ≤ q) : truncated q = ⌊q⌋ := if_pos h

theorem truncated_neg {q : ℚ} (h : 0 ≤ q) : truncated (-q) = -⌊q⌋ := by
  unfold truncated
  split
  · next hneg =>
      obtain rfl : q = 0 := by linarith
      simp
  · rw [Int.ceil_neg]

theorem truncated_intCast (i : ℤ) : truncated i = i := by
  unfold truncated
  split
  · exact Int.floor_intCast i
  · exact Int.ceil_intCast i

/-- The double of an integer is cut to that integer. -/
theorem cut_ofInt {i : ℤ} (hi : i.natAbs ≤ 2 ^ 53) : cut (Float.ofInt i) = .ofInt i := by
  unfold cut
  rw [toRat?_ofInt hi]
  exact congrArg Extended.ofInt (truncated_intCast i)

namespace Binary

theorem floor_ratio (b : Binary) : ⌊(b.ratio.1 / b.ratio.2 : ℚ)⌋ = (b.ratio.1 / b.ratio.2 : Nat) :=
  Rat.floor_natCast_div_natCast _ _

/-- Cutting a fraction is cutting the number that it is. -/
theorem truncate_eq (b : Binary) : b.truncate = truncated b.toRat := by
  have hnonneg : (0 : ℚ) ≤ b.ratio.1 / b.ratio.2 := by positivity
  rw [truncate, toRat_eq, signed]
  split
  · rw [truncated_neg hnonneg, floor_ratio]
  · rw [truncated_of_nonneg hnonneg, floor_ratio]

end Binary

/-- Bringing a cut into a range gives the nearest integer of the range. -/
theorem truncateWithin_eq (bound : Nat) (x : Float) :
    Extended.ofInt (truncateWithin bound x) =
      max (.ofInt (-bound)) (min (.ofInt bound) (cut x)) := by
  unfold truncateWithin cut toRat?
  cases Binary.ofFloat? x with
  | some b =>
      simp only [Option.map_some, b.truncate_eq, Extended.ofInt_min, Extended.ofInt_max]
  | none =>
      simp only [Option.map_none]
      split
      · rw [Extended.ofInt_min, Extended.ofInt_max]
        congr 1
        omega
      · split
        · rw [min_bot_right, max_bot_right]
        · rw [min_top_right, Extended.ofInt_max]
          congr 1
          omega

end DataRules.Double
