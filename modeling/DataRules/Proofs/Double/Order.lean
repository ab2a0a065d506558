import DataRules.Proofs.Double.Comparison
import DataRules.Proofs.Double.Operations

set_option autoImplicit false

/-!
# Order: doubles on a line

Every double but NaN has a place on the line of the rational numbers with an end on either
side, the infinities being the ends.  Doubles compare as their places do, so what is known
of a linear order is known of them, and the double of an integer up to `2 ^ 53` compares as
the integer.
-/

namespace DataRules.Double

open Float.Model Float.Model.UnpackedFloat

/-- The rational numbers with one end below and one above all of them. -/
abbrev Line : Type := WithBot (WithTop ℚ)

/-- A rational number on the line. -/
def Line.ofRat (q : ℚ) : Line := ((q : WithTop ℚ) : WithBot (WithTop ℚ))

namespace Line

variable {p q : ℚ}

theorem ofRat_lt_ofRat : ofRat p < ofRat q ↔ p < q := by
  simp [ofRat]

theorem ofRat_le_ofRat : ofRat p ≤ ofRat q ↔ p ≤ q := by
  simp [ofRat]

theorem compare_ofRat (p q : ℚ) : compare (ofRat p) (ofRat q) = compare p q := by
  have hmono : StrictMono ofRat := fun _ _ h => ofRat_lt_ofRat.mpr h
  rw [← cmp_eq_compare, ← cmp_eq_compare, hmono.cmp_map_eq]

theorem compare_bot_ofRat (q : ℚ) : compare ⊥ (ofRat q) = .lt :=
  compare_lt_iff_lt.mpr (WithBot.bot_lt_coe _)

theorem compare_ofRat_bot (q : ℚ) : compare (ofRat q) ⊥ = .gt :=
  compare_gt_iff_gt.mpr (WithBot.bot_lt_coe _)

theorem compare_ofRat_top (q : ℚ) : compare (ofRat q) ⊤ = .lt :=
  compare_lt_iff_lt.mpr (WithBot.coe_lt_coe.mpr (WithTop.coe_lt_top q))

theorem compare_top_ofRat (q : ℚ) : compare ⊤ (ofRat q) = .gt :=
  compare_gt_iff_gt.mpr (WithBot.coe_lt_coe.mpr (WithTop.coe_lt_top q))

end Line

/-- Where an unpacked double stands on the line; NaN stands nowhere. -/
def unpackedPlace? : UnpackedFloat → Option Line
  | .notANumber => none
  | .infinity .negative => some ⊥
  | .infinity .positive => some ⊤
  | u => (unpackedRat? u).map .ofRat

theorem unpackedPlace?_of_unpackedRat? {u : UnpackedFloat} {q : ℚ} (h : unpackedRat? u = some q) :
    unpackedPlace? u = some (.ofRat q) := by
  cases u with
  | notANumber => cases h
  | infinity s => cases h
  | zero s => exact congrArg (Option.map Line.ofRat) h
  | finite s m e hpos => exact congrArg (Option.map Line.ofRat) h

/-- Where a double stands on the line. -/
def place? (x : Float) : Option Line := unpackedPlace? x.toModel.unpack

/-- A finite double stands where its rational number does. -/
theorem place?_of_toRat? {x : Float} {q : ℚ} (h : toRat? x = some q) :
    place? x = some (.ofRat q) := by
  rw [toRat?_eq] at h
  rw [place?, unpackedPlace?_of_unpackedRat? h]

/-! ## Comparing magnitudes -/

/-- The mantissa of a stored double at that exponent: one of 53 bits, or a smaller one at
the smallest exponent. -/
structure IsSignificand (m : Nat) (e : Int) : Prop where
  bits : m.log2 ≤ 52
  low : -1074 ≤ e
  full : m.log2 = 52 ∨ e = -1074

variable {m n : Nat} {e f : Int}

/-- Of two significands the one with the greater exponent is the greater number, and at one
exponent the greater mantissa is. -/
theorem magnitude_lt (hm : IsSignificand m e) (hn : IsSignificand n f)
    (h : e < f ∨ e = f ∧ m < n) : (m : ℚ) * 2 ^ e < n * 2 ^ f := by
  rcases h with hlt | ⟨rfl, hlt⟩
  · -- past the smallest exponent the leading bit is set, so `n` is not below half of `2 ^ 53`
    have hlog : n.log2 = 52 := hn.full.resolve_right (by have := hm.low; omega)
    have hsmall : m < 2 ^ 53 :=
      Nat.lt_log2_self.trans_le (Nat.pow_le_pow_right two_pos (Nat.succ_le_succ hm.bits))
    have hlarge : 2 ^ 52 ≤ n := (log2_eq_52_iff.mp hlog).1
    have hsmall : (m : ℚ) < 2 ^ 53 := by exact_mod_cast hsmall
    have hlarge : (2 : ℚ) ^ 52 ≤ n := by exact_mod_cast hlarge
    have hpow : (2 : ℚ) * 2 ^ e ≤ 2 ^ f := by
      rw [← zpow_one_add₀ two_ne_zero]
      exact zpow_le_zpow_right₀ one_le_two (by omega)
    calc (m : ℚ) * 2 ^ e < 2 ^ 53 * 2 ^ e := by gcongr
      _ = 2 ^ 52 * (2 * 2 ^ e) := by ring
      _ ≤ n * 2 ^ f := by gcongr
  · have hlt : (m : ℚ) < n := by exact_mod_cast hlt
    gcongr

theorem compare_magnitude (hm : IsSignificand m e) (hn : IsSignificand n f) :
    (compare e f).then (compare m n) = compare ((m : ℚ) * 2 ^ e) (n * 2 ^ f) := by
  rcases lt_trichotomy e f with hlt | rfl | hgt
  · rw [compare_lt_iff_lt.mpr hlt, compare_lt_iff_lt.mpr (magnitude_lt hm hn (.inl hlt))]
    rfl
  · rw [compare_eq_iff_eq.mpr rfl]
    rcases lt_trichotomy m n with hlt | rfl | hgt
    · rw [compare_lt_iff_lt.mpr hlt, compare_lt_iff_lt.mpr (magnitude_lt hm hn (.inr ⟨rfl, hlt⟩))]
      rfl
    · rw [compare_eq_iff_eq.mpr rfl, compare_eq_iff_eq.mpr rfl]
      rfl
    · rw [compare_gt_iff_gt.mpr hgt, compare_gt_iff_gt.mpr (magnitude_lt hn hm (.inr ⟨rfl, hgt⟩))]
      rfl
  · rw [compare_gt_iff_gt.mpr hgt, compare_gt_iff_gt.mpr (magnitude_lt hn hm (.inl hgt))]
    rfl

/-! ## Comparing doubles -/

theorem Stored.isSignificand {s : Sign} {hpos : 0 < m} (h : Stored (.finite s m e hpos)) :
    IsSignificand m e := by
  cases h with
  | finite _ _ hc hlow hhigh => exact ⟨hc.le, hlow, .inl hc⟩
  | subnormal _ _ hc => exact ⟨hc.le, le_refl _, .inr rfl⟩

theorem magnitude_pos (hpos : 0 < m) (e : Int) : (0 : ℚ) < m * 2 ^ e := by
  have hpos : (0 : ℚ) < m := by exact_mod_cast hpos
  positivity

theorem apply_negative_lt (hpos : 0 < m) (e : Int) :
    (Sign.negative.apply m : ℚ) * 2 ^ e < 0 := by
  have hmagnitude := magnitude_pos hpos e
  simp only [Sign.apply, Int.cast_neg, Int.cast_natCast]
  linarith

theorem lt_apply_positive (hpos : 0 < m) (e : Int) :
    (0 : ℚ) < (Sign.positive.apply m : ℚ) * 2 ^ e := magnitude_pos hpos e

theorem compare_apply_negative (m n : Nat) (e f : Int) :
    compare ((Sign.negative.apply m : ℚ) * 2 ^ e) (Sign.negative.apply n * 2 ^ f) =
      (compare ((m : ℚ) * 2 ^ e) (n * 2 ^ f)).swap := by
  have hanti : StrictAnti fun x : ℚ => -x := fun _ _ h => neg_lt_neg h
  simp only [Sign.apply, Int.cast_neg, Int.cast_natCast, neg_mul]
  rw [← cmp_eq_compare, hanti.cmp_map_eq, cmp_eq_compare, Std.OrientedOrd.eq_swap]

/-- Finite numbers compare as rational numbers. -/
theorem Stored.compare_of_unpackedRat? {u v : UnpackedFloat} (hu : Stored u) (hv : Stored v)
    {p q : ℚ} (hp : unpackedRat? u = some p) (hq : unpackedRat? v = some q) :
    u.compare v = some (compare p q) := by
  rcases u with s | _ | s | ⟨s, m, e, hm⟩ <;> cases hp <;>
    rcases v with t | _ | t | ⟨t, n, f, hn⟩ <;> cases hq
  · -- zeros are equal, whatever their signs
    rw [compare_eq_iff_eq.mpr rfl]
    rfl
  · cases t with
    | negative => rw [compare_gt_iff_gt.mpr (apply_negative_lt hn f)]; rfl
    | positive => rw [compare_lt_iff_lt.mpr (lt_apply_positive hn f)]; rfl
  · cases s with
    | negative => rw [compare_lt_iff_lt.mpr (apply_negative_lt hm e)]; rfl
    | positive => rw [compare_gt_iff_gt.mpr (lt_apply_positive hm e)]; rfl
  · have hcompare := compare_magnitude hu.isSignificand hv.isSignificand
    cases s with
    | negative =>
        cases t with
        | negative =>
            show some ((compare e f).then (compare m n)).swap = _
            rw [hcompare, compare_apply_negative]
        | positive =>
            rw [compare_lt_iff_lt.mpr ((apply_negative_lt hm e).trans (lt_apply_positive hn f))]
            rfl
    | positive =>
        cases t with
        | negative =>
            rw [compare_gt_iff_gt.mpr ((apply_negative_lt hn f).trans (lt_apply_positive hm e))]
            rfl
        | positive => exact congrArg some hcompare

/-- A place is one of the ends, where an infinity stands, or a rational number. -/
theorem place_cases {u : UnpackedFloat} {a : Line} (h : unpackedPlace? u = some a) :
    u = .infinity .negative ∧ a = ⊥ ∨ u = .infinity .positive ∧ a = ⊤ ∨
      ∃ q, unpackedRat? u = some q ∧ a = .ofRat q := by
  cases u with
  | notANumber => cases h
  | infinity s =>
      cases s with
      | negative => exact .inl ⟨rfl, (Option.some.inj h).symm⟩
      | positive => exact .inr (.inl ⟨rfl, (Option.some.inj h).symm⟩)
  | zero s => exact .inr (.inr ⟨0, rfl, (Option.some.inj h).symm⟩)
  | finite s m e hpos => exact .inr (.inr ⟨_, rfl, (Option.some.inj h).symm⟩)

/-- An infinity is past every finite number. -/
theorem compare_infinity {v : UnpackedFloat} {q : ℚ} (h : unpackedRat? v = some q) :
    (UnpackedFloat.infinity .negative).compare v = some .lt ∧
    (UnpackedFloat.infinity .positive).compare v = some .gt ∧
    v.compare (.infinity .negative) = some .gt ∧ v.compare (.infinity .positive) = some .lt := by
  cases v with
  | notANumber => cases h
  | infinity s => cases h
  | zero s => exact ⟨rfl, rfl, rfl, rfl⟩
  | finite s m e hpos => cases s <;> exact ⟨rfl, rfl, rfl, rfl⟩

/-- Stored numbers compare as their places do. -/
theorem Stored.compare_eq {u v : UnpackedFloat} (hu : Stored u) (hv : Stored v) {a b : Line}
    (ha : unpackedPlace? u = some a) (hb : unpackedPlace? v = some b) :
    u.compare v = some (compare a b) := by
  rcases place_cases ha with ⟨rfl, rfl⟩ | ⟨rfl, rfl⟩ | ⟨p, hp, rfl⟩
  · rcases place_cases hb with ⟨rfl, rfl⟩ | ⟨rfl, rfl⟩ | ⟨q, hq, rfl⟩
    · rw [compare_eq_iff_eq.mpr rfl]
      rfl
    · rw [compare_lt_iff_lt.mpr bot_lt_top]
      rfl
    · rw [(compare_infinity hq).1, Line.compare_bot_ofRat]
  · rcases place_cases hb with ⟨rfl, rfl⟩ | ⟨rfl, rfl⟩ | ⟨q, hq, rfl⟩
    · rw [compare_gt_iff_gt.mpr bot_lt_top]
      rfl
    · rw [compare_eq_iff_eq.mpr rfl]
      rfl
    · rw [(compare_infinity hq).2.1, Line.compare_top_ofRat]
  · rcases place_cases hb with ⟨rfl, rfl⟩ | ⟨rfl, rfl⟩ | ⟨q, hq, rfl⟩
    · rw [(compare_infinity hp).2.2.1, Line.compare_ofRat_bot]
    · rw [(compare_infinity hp).2.2.2, Line.compare_ofRat_top]
    · rw [hu.compare_of_unpackedRat? hv hp hq, Line.compare_ofRat]

/-- Doubles compare as their places do. -/
theorem order?_eq {x y : Float} {a b : Line} (ha : place? x = some a) (hb : place? y = some b) :
    order? x y = some (compare a b) :=
  (stored_unpack x.toModel).compare_eq (stored_unpack y.toModel) ha hb

/-- Only NaN has no place. -/
theorem place?_eq_none_iff {x : Float} : place? x = none ↔ x.isNaN = true := by
  have hnan : x.isNaN = x.toModel.unpack.isNaN := rfl
  rw [hnan, place?]
  cases x.toModel.unpack with
  | notANumber => simp [unpackedPlace?, UnpackedFloat.isNaN]
  | infinity s => cases s <;> simp [unpackedPlace?, UnpackedFloat.isNaN]
  | zero s => simp [unpackedPlace?, unpackedRat?, UnpackedFloat.isNaN]
  | finite s m e hpos => simp [unpackedPlace?, unpackedRat?, UnpackedFloat.isNaN]

theorem le_iff_order? {x y : Float} : x ≤ y ↔ (order? x y).any Ordering.isLE = true :=
  decide_eq_true_iff (p := x.toModel ≤ y.toModel)

/-- One double is at most another when both have a place and the places are so. -/
theorem le_iff {x y : Float} :
    x ≤ y ↔ ∃ a b, place? x = some a ∧ place? y = some b ∧ a ≤ b := by
  rw [le_iff_order?]
  cases hx : place? x with
  | none =>
      rw [order?_eq_none_iff.mpr (.inl (place?_eq_none_iff.mp hx))]
      simp
  | some a =>
      cases hy : place? y with
      | none =>
          rw [order?_eq_none_iff.mpr (.inr (place?_eq_none_iff.mp hy))]
          simp
      | some b =>
          have hle : (compare a b).isLE = true ↔ a ≤ b :=
            Ordering.ne_gt_iff_isLE.symm.trans compare_le_iff_le
          rw [order?_eq hx hy, Option.any_some, hle]
          exact ⟨fun h => ⟨a, b, rfl, rfl, h⟩, fun ⟨_, _, ha, hb, h⟩ =>
            Option.some.inj ha ▸ Option.some.inj hb ▸ h⟩

theorem le_trans_of_le {x y z : Float} (hxy : x ≤ y) (hyz : y ≤ z) : x ≤ z := by
  obtain ⟨a, b, ha, hb, hab⟩ := le_iff.mp hxy
  obtain ⟨b', c, hb', hc, hbc⟩ := le_iff.mp hyz
  obtain rfl := Option.some.inj (hb.symm.trans hb')
  exact le_iff.mpr ⟨a, c, ha, hc, hab.trans hbc⟩

theorem not_le_of_isNaN {x : Float} (hx : x.isNaN = true) (y : Float) : ¬x ≤ y := by
  intro h
  obtain ⟨a, -, ha, -, -⟩ := le_iff.mp h
  rw [place?_eq_none_iff.mpr hx] at ha
  cases ha

/-! ## Natural numbers among the doubles -/

/-- A natural number up to `2 ^ 53` stands where it is. -/
theorem place?_ofNat {n : Nat} (hn : n ≤ 2 ^ 53) : place? (Float.ofNat n) = some (.ofRat n) :=
  place?_of_toRat? (toRat?_ofInt (i := n) hn)

/-- Rounding does not lead past a double. -/
theorem Nearest.le_of_isDouble {x : Float} {p q r : ℚ} (hx : Nearest x q) (hr : toRat? x = some r)
    (hp : IsDouble p) (hle : p ≤ q) : p ≤ r := by
  obtain ⟨b, hb, hnearest⟩ := hx
  rw [Binary.toRat?_eq hb] at hr
  obtain rfl := Option.some.inj hr
  have hclosest := hnearest.closest hp
  by_contra hlt
  rw [not_le] at hlt
  rw [abs_of_nonpos (by linarith), abs_of_nonpos (by linarith)] at hclosest
  linarith

/-- A double that is at most a natural number is so after the number has been rounded too. -/
theorem le_ofNat {x : Float} {a : Line} {n : Nat} (hx : place? x = some a) (ha : a ≤ .ofRat n) :
    x ≤ Float.ofNat n := by
  rcases rounded_or_infinite_ofNat n with hrounded | ⟨-, hinfinite⟩
  · obtain ⟨r, hr, -⟩ := hrounded.exists
    refine le_iff.mpr ⟨a, .ofRat r, hx, place?_of_toRat? hr, ?_⟩
    rcases place_cases hx with ⟨-, rfl⟩ | ⟨-, rfl⟩ | ⟨q, hq, rfl⟩
    · exact bot_le
    · exact absurd ha (compare_gt_iff_gt.mp (Line.compare_top_ofRat _)).not_ge
    · -- the rounded number is nearest, so no double lies between it and `n`
      have hdouble : IsDouble q := ⟨x, (toRat?_eq x).trans hq⟩
      exact Line.ofRat_le_ofRat.mpr
        (hrounded.nearest.le_of_isDouble hr hdouble (Line.ofRat_le_ofRat.mp ha))
  · have htop : place? (Float.ofNat n) = some ⊤ := by
      rw [place?, hinfinite]
      rfl
    exact le_iff.mpr ⟨a, ⊤, hx, htop, le_top⟩

/-- A double compares with a natural number up to `2 ^ 53` as with its conversion. -/
theorem le_ofNat_iff {x : Float} {n : Nat} (hn : n ≤ 2 ^ 53) :
    x ≤ Float.ofNat n ↔ ∃ a, place? x = some a ∧ a ≤ .ofRat n := by
  constructor
  · intro h
    obtain ⟨a, b, ha, hb, hab⟩ := le_iff.mp h
    obtain rfl := Option.some.inj ((place?_ofNat hn).symm.trans hb)
    exact ⟨a, ha, hab⟩
  · rintro ⟨a, ha, hle⟩
    exact le_ofNat ha hle

end DataRules.Double
