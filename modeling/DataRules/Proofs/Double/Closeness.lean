import DataRules.Proofs.Double.Operations

set_option autoImplicit false

/-!
# Closeness: results after several roundings

Each rounding changes a positive result by no more than one part in `2 ^ 53`.  What is
left of the exact result after several of them is counted in roundings: two numbers are
close up to `k` roundings when neither is below the other by more than `k` times that
part.  Sums keep the count, products and quotients add it up.
-/

namespace DataRules.Double

/-- What is certain to remain of a number that is rounded down once. -/
def kept : ℚ := 1 - 1 / 2 ^ 53

theorem kept_pos : 0 < kept := by
  unfold kept
  norm_num

theorem kept_le_one : kept ≤ 1 := by
  unfold kept
  norm_num

/-- `k` roundings take away no more than `k` parts. -/
theorem le_kept_pow (k : Nat) : 1 - k / 2 ^ 53 ≤ kept ^ k := by
  have hbernoulli := one_add_mul_le_pow (show (-2 : ℚ) ≤ -(1 / 2 ^ 53) by norm_num) k
  rw [← sub_eq_add_neg] at hbernoulli
  refine le_trans (le_of_eq ?_) hbernoulli
  ring

theorem one_le_parts {k : Nat} (hk : k * (k + 1) ≤ 2 ^ 53) :
    (1 : ℚ) ≤ (1 - k / 2 ^ 53) * (1 + (k + 1) / 2 ^ 53) := by
  have hparts : (k : ℚ) * (k + 1) ≤ 2 ^ 53 := by exact_mod_cast hk
  have hexpand : (1 - (k : ℚ) / 2 ^ 53) * (1 + (k + 1) / 2 ^ 53) =
      1 + (2 ^ 53 - k * (k + 1)) / 2 ^ 106 := by ring
  rw [hexpand]
  exact le_add_of_nonneg_right (div_nonneg (sub_nonneg.mpr hparts) (by norm_num))

/-- One rounding more takes away `k` parts at least. -/
theorem kept_pow_le {k : Nat} (hk : k * (k + 1) ≤ 2 ^ 53) : kept ^ (k + 1) ≤ 1 - k / 2 ^ 53 := by
  have hgrown : (1 : ℚ) + (k + 1) / 2 ^ 53 ≤ (1 + 1 / 2 ^ 53) ^ (k + 1) := by
    have hbernoulli := one_add_mul_le_pow (show (-2 : ℚ) ≤ 1 / 2 ^ 53 by norm_num) (k + 1)
    refine le_trans (le_of_eq ?_) hbernoulli
    push_cast
    ring
  have hcancel : kept ^ (k + 1) * (1 + 1 / 2 ^ 53) ^ (k + 1) ≤ 1 := by
    rw [← mul_pow]
    refine pow_le_one₀ (mul_nonneg kept_pos.le (by norm_num)) ?_
    unfold kept
    norm_num
  have hpos : (0 : ℚ) < 1 + (k + 1) / 2 ^ 53 := by positivity
  refine le_of_mul_le_mul_right ?_ hpos
  calc kept ^ (k + 1) * (1 + (k + 1) / 2 ^ 53)
      ≤ kept ^ (k + 1) * (1 + 1 / 2 ^ 53) ^ (k + 1) :=
        mul_le_mul_of_nonneg_left hgrown (pow_nonneg kept_pos.le _)
    _ ≤ 1 := hcancel
    _ ≤ (1 - k / 2 ^ 53) * (1 + (k + 1) / 2 ^ 53) := one_le_parts hk

/-- The two numbers are the same up to `k` roundings. -/
structure Close (k : Nat) (a b : ℚ) : Prop where
  above : b * kept ^ k ≤ a
  below : a * kept ^ k ≤ b

namespace Close

variable {k l : Nat} {a b c d : ℚ}

theorem zero_iff : Close 0 a b ↔ a = b := by
  constructor
  · rintro ⟨habove, hbelow⟩
    rw [pow_zero, mul_one] at habove hbelow
    exact le_antisymm hbelow habove
  · rintro rfl
    constructor <;> rw [pow_zero, mul_one]

theorem trans (h : Close k a b) (h' : Close l b c) : Close (k + l) a c := by
  have hk : (0 : ℚ) ≤ kept ^ k := pow_nonneg kept_pos.le k
  have hl : (0 : ℚ) ≤ kept ^ l := pow_nonneg kept_pos.le l
  constructor
  · calc c * kept ^ (k + l) = c * kept ^ l * kept ^ k := by ring
      _ ≤ b * kept ^ k := mul_le_mul_of_nonneg_right h'.above hk
      _ ≤ a := h.above
  · calc a * kept ^ (k + l) = a * kept ^ k * kept ^ l := by ring
      _ ≤ b * kept ^ l := mul_le_mul_of_nonneg_right h.below hl
      _ ≤ c := h'.below

theorem mono (h : Close k a b) (hkl : k ≤ l) (ha : 0 ≤ a) (hb : 0 ≤ b) : Close l a b := by
  have hle : kept ^ l ≤ kept ^ k := pow_le_pow_of_le_one kept_pos.le kept_le_one hkl
  exact ⟨(mul_le_mul_of_nonneg_left hle hb).trans h.above,
    (mul_le_mul_of_nonneg_left hle ha).trans h.below⟩

theorem add (h : Close k a b) (h' : Close k c d) : Close k (a + c) (b + d) := by
  constructor
  · rw [add_mul]
    exact add_le_add h.above h'.above
  · rw [add_mul]
    exact add_le_add h.below h'.below

theorem mul (h : Close k a b) (h' : Close l c d) (ha : 0 ≤ a) (hb : 0 ≤ b) (hc : 0 ≤ c)
    (hd : 0 ≤ d) : Close (k + l) (a * c) (b * d) := by
  have hl : (0 : ℚ) ≤ kept ^ l := pow_nonneg kept_pos.le l
  constructor
  · calc b * d * kept ^ (k + l) = b * kept ^ k * (d * kept ^ l) := by ring
      _ ≤ a * c := mul_le_mul h.above h'.above (mul_nonneg hd hl) ha
  · calc a * c * kept ^ (k + l) = a * kept ^ k * (c * kept ^ l) := by ring
      _ ≤ b * d := mul_le_mul h.below h'.below (mul_nonneg hc hl) hb

theorem inv (h : Close k a b) (ha : 0 < a) (hb : 0 < b) : Close k a⁻¹ b⁻¹ := by
  constructor
  · rw [inv_mul_le_iff₀ hb, ← div_eq_mul_inv, le_div_iff₀ ha, mul_comm]
    exact h.below
  · rw [inv_mul_le_iff₀ ha, ← div_eq_mul_inv, le_div_iff₀ hb, mul_comm]
    exact h.above

theorem div (h : Close k a b) (h' : Close l c d) (ha : 0 ≤ a) (hb : 0 ≤ b) (hc : 0 < c)
    (hd : 0 < d) : Close (k + l) (a / c) (b / d) := by
  rw [div_eq_mul_inv, div_eq_mul_inv]
  exact h.mul (h'.inv hc hd) ha hb (inv_nonneg.mpr hc.le) (inv_nonneg.mpr hd.le)

/-- The difference after `k` roundings. -/
theorem error (h : Close k a b) (hk : k * (k + 1) ≤ 2 ^ 53) (hb : 0 ≤ b) :
    |a - b| ≤ (k + 1) / 2 ^ 53 * b := by
  have hparts : (0 : ℚ) ≤ 1 + (k + 1) / 2 ^ 53 := by positivity
  have ha : 0 ≤ a := le_trans (mul_nonneg hb (pow_nonneg kept_pos.le k)) h.above
  have hlow : b * (1 - k / 2 ^ 53) ≤ a :=
    (mul_le_mul_of_nonneg_left (le_kept_pow k) hb).trans h.above
  have hhigh : a ≤ b * (1 + (k + 1) / 2 ^ 53) :=
    calc a = a * 1 := (mul_one a).symm
      _ ≤ a * ((1 - k / 2 ^ 53) * (1 + (k + 1) / 2 ^ 53)) :=
        mul_le_mul_of_nonneg_left (one_le_parts hk) ha
      _ = a * (1 - k / 2 ^ 53) * (1 + (k + 1) / 2 ^ 53) := (mul_assoc _ _ _).symm
      _ ≤ b * (1 + (k + 1) / 2 ^ 53) := by
        refine mul_le_mul_of_nonneg_right ?_ hparts
        exact (mul_le_mul_of_nonneg_left (le_kept_pow k) ha).trans h.below
  have hmore : (k : ℚ) / 2 ^ 53 * b ≤ (k + 1) / 2 ^ 53 * b := by
    refine mul_le_mul_of_nonneg_right ?_ hb
    gcongr
    linarith
  rw [abs_le]
  constructor <;> linarith

/-- A difference of one part is one rounding. -/
theorem of_part (h : |a - b| ≤ 1 / 2 ^ 53 * b) (hb : 0 ≤ b) : Close 1 a b := by
  obtain ⟨hlow, hhigh⟩ := abs_le.mp h
  constructor
  · rw [pow_one, kept]
    linarith
  · have hle : a ≤ b * (1 + 1 / 2 ^ 53) := by linarith
    rw [pow_one]
    calc a * kept ≤ b * (1 + 1 / 2 ^ 53) * kept := mul_le_mul_of_nonneg_right hle kept_pos.le
      _ = b * (1 - 1 / 2 ^ 106) := by
        unfold kept
        ring
      _ ≤ b := by linarith

/-- A small difference counted in roundings. -/
theorem of_error (h : |a - b| ≤ k / 2 ^ 53 * b) (hk : k * (k + 1) ≤ 2 ^ 53) (hb : 0 ≤ b) :
    Close (k + 1) a b := by
  obtain ⟨hlow, hhigh⟩ := abs_le.mp h
  have hpow : (0 : ℚ) ≤ kept ^ (k + 1) := pow_nonneg kept_pos.le _
  have hsquare : (1 + (k : ℚ) / 2 ^ 53) * (1 - k / 2 ^ 53) ≤ 1 := by
    have hnonneg : (0 : ℚ) ≤ (k / 2 ^ 53) ^ 2 := sq_nonneg _
    linarith
  constructor
  · calc b * kept ^ (k + 1) ≤ b * (1 - k / 2 ^ 53) :=
          mul_le_mul_of_nonneg_left (kept_pow_le hk) hb
      _ ≤ a := by linarith
  · calc a * kept ^ (k + 1) ≤ b * (1 + k / 2 ^ 53) * kept ^ (k + 1) :=
          mul_le_mul_of_nonneg_right (by linarith) hpow
      _ ≤ b * (1 + k / 2 ^ 53) * (1 - k / 2 ^ 53) :=
          mul_le_mul_of_nonneg_left (kept_pow_le hk) (by positivity)
      _ = b * ((1 + k / 2 ^ 53) * (1 - k / 2 ^ 53)) := mul_assoc _ _ _
      _ ≤ b * 1 := mul_le_mul_of_nonneg_left hsquare hb
      _ = b := mul_one b

/-- After not too many roundings the number is at least half, and at most twice, what it
was. -/
theorem half_le (h : Close k a b) (hk : k ≤ 100) (hb : 0 ≤ b) : b / 2 ≤ a ∧ a ≤ 2 * b := by
  have hsmall : k * (k + 1) ≤ 2 ^ 53 :=
    calc k * (k + 1) ≤ 100 * 101 := Nat.mul_le_mul hk (Nat.succ_le_succ hk)
      _ ≤ 2 ^ 53 := by norm_num
  have hpart : ((k : ℚ) + 1) / 2 ^ 53 ≤ 1 / 2 := by
    have hkRat : (k : ℚ) ≤ 100 := by exact_mod_cast hk
    rw [div_le_div_iff₀ (by norm_num) (by norm_num)]
    linarith
  have herror := (h.error hsmall hb).trans (mul_le_mul_of_nonneg_right hpart hb)
  obtain ⟨hlow, hhigh⟩ := abs_le.mp herror
  constructor <;> linarith

end Close

/-! ## Rounded results -/

/-- The double is a number that is `q` up to `k` roundings. -/
def IsClose (k : Nat) (x : Float) (q : ℚ) : Prop := ∃ r, toRat? x = some r ∧ Close k r q

theorem isClose_zero_iff {x : Float} {q : ℚ} : IsClose 0 x q ↔ toRat? x = some q := by
  constructor
  · rintro ⟨r, hr, hclose⟩
    rw [hr, Close.zero_iff.mp hclose]
  · exact fun h => ⟨q, h, Close.zero_iff.mpr rfl⟩

/-- A number that is neither tiny nor huge. -/
structure Moderate (q : ℚ) : Prop where
  low : 1 / 10 ^ 60 ≤ q
  high : q ≤ 10 ^ 60

theorem Moderate.pos {q : ℚ} (h : Moderate q) : 0 < q := lt_of_lt_of_le (by norm_num) h.low

/-- Numbers close to a moderate one are rounded to 53 bits. -/
theorem Moderate.inRange {k : Nat} {r q : ℚ} (h : Moderate q) (hk : k ≤ 100)
    (hclose : Close k r q) : InRange r := by
  obtain ⟨hlow, hhigh⟩ := hclose.half_le hk h.pos.le
  have hmin : (2 : ℚ) ^ (-1022 : Int) ≤ r := by
    calc (2 : ℚ) ^ (-1022 : Int) ≤ 2 ^ (-240 : Int) :=
          zpow_le_zpow_right₀ one_le_two (by norm_num)
      _ ≤ 1 / 10 ^ 60 / 2 := by norm_num
      _ ≤ q / 2 := by linarith [h.low]
      _ ≤ r := hlow
  have hmax : r < 2 ^ (1023 : Int) := by
    calc r ≤ 2 * q := hhigh
      _ ≤ 2 * 10 ^ 60 := by linarith [h.high]
      _ < 2 ^ (240 : Int) := by norm_num
      _ ≤ 2 ^ (1023 : Int) := zpow_le_zpow_right₀ one_le_two (by norm_num)
  have hpos : 0 < r := lt_of_lt_of_le (zpow_pos two_pos _) hmin
  rw [InRange, abs_of_pos hpos]
  exact .inr ⟨hmin, hmax⟩

/-- Rounding is one rounding. -/
theorem Rounded.isClose {x : Float} {q : ℚ} (h : Rounded x q) (hq : 0 ≤ q) : IsClose 1 x q := by
  obtain ⟨r, hr, herror⟩ := h.exists
  refine ⟨r, hr, Close.of_part ?_ hq⟩
  rwa [abs_of_nonneg hq, div_eq_mul_one_div, mul_comm] at herror

namespace IsClose

variable {k l : Nat} {x y : Float} {a b : ℚ}

theorem rounded {z : Float} {c q : ℚ} (hz : InRange c → Rounded z c) (hclose : Close k c q)
    (hq : Moderate q) (hk : k ≤ 100) : IsClose (k + 1) z q := by
  have hpos : 0 ≤ c := by
    obtain ⟨hlow, -⟩ := hclose.half_le hk hq.pos.le
    linarith [hq.pos]
  obtain ⟨r, hr, hone⟩ := (hz (hq.inRange hk hclose)).isClose hpos
  rw [Nat.add_comm]
  exact ⟨r, hr, hone.trans hclose⟩

theorem nonneg {r : ℚ} (h : Close k r a) (ha : 0 ≤ a) : 0 ≤ r :=
  le_trans (mul_nonneg ha (pow_nonneg kept_pos.le k)) h.above

theorem mono (h : IsClose k x a) (hkl : k ≤ l) (ha : 0 ≤ a) : IsClose l x a := by
  obtain ⟨r, hr, hclose⟩ := h
  exact ⟨r, hr, hclose.mono hkl (nonneg hclose ha) ha⟩

/-- A double close to a positive number is not zero. -/
theorem ne_zero (h : IsClose k x a) (ha : 0 < a) : toRat? x ≠ some 0 := by
  obtain ⟨r, hr, hclose⟩ := h
  have hpos : 0 < r := lt_of_lt_of_le (mul_pos ha (pow_pos kept_pos k)) hclose.above
  rw [hr]
  exact fun hzero => hpos.ne' (Option.some.inj hzero)

theorem add (hx : IsClose k x a) (hy : IsClose k y b) (hk : k ≤ 100) (hq : Moderate (a + b)) :
    IsClose (k + 1) (x + y) (a + b) := by
  obtain ⟨r, hr, hrclose⟩ := hx
  obtain ⟨t, ht, htclose⟩ := hy
  exact rounded (rounded_add hr ht) (hrclose.add htclose) hq hk

theorem mul (hx : IsClose k x a) (hy : IsClose l y b) (ha : 0 ≤ a) (hb : 0 ≤ b)
    (hk : k + l ≤ 100) (hq : Moderate (a * b)) : IsClose (k + l + 1) (x * y) (a * b) := by
  obtain ⟨r, hr, hrclose⟩ := hx
  obtain ⟨t, ht, htclose⟩ := hy
  exact rounded (rounded_mul hr ht)
    (hrclose.mul htclose (nonneg hrclose ha) ha (nonneg htclose hb) hb) hq hk

theorem div (hx : IsClose k x a) (hy : IsClose l y b) (ha : 0 ≤ a) (hb : 0 < b)
    (hk : k + l ≤ 100) (hq : Moderate (a / b)) : IsClose (k + l + 1) (x / y) (a / b) := by
  obtain ⟨r, hr, hrclose⟩ := hx
  obtain ⟨t, ht, htclose⟩ := hy
  have htpos : 0 < t := lt_of_lt_of_le (mul_pos hb (pow_pos kept_pos l)) htclose.above
  exact rounded (rounded_div hr ht htpos.ne')
    (hrclose.div htclose (nonneg hrclose ha) ha htpos hb) hq hk

end IsClose

/-! ## Signed results -/

/-- The double is `q` times a factor that is one up to `k` roundings. -/
def IsNear (k : Nat) (x : Float) (q : ℚ) : Prop :=
  ∃ factor, toRat? x = some (q * factor) ∧ Close k factor 1

theorem IsClose.isNear {k : Nat} {x : Float} {q : ℚ} (h : IsClose k x q) (hq : 0 ≤ q) :
    IsNear k x q := by
  obtain ⟨r, hr, hclose⟩ := h
  rcases hq.eq_or_lt with rfl | hpos
  · have hzero : r = 0 := by
      have hle : r * kept ^ k ≤ 0 := hclose.below
      have hge : 0 ≤ r := nonneg hclose le_rfl
      exact le_antisymm (nonpos_of_mul_nonpos_left hle (pow_pos kept_pos k)) hge
    subst hzero
    exact ⟨1, by rw [hr, zero_mul], (Close.zero_iff.mpr rfl).mono (Nat.zero_le k) zero_le_one
      zero_le_one⟩
  · refine ⟨r / q, by rw [mul_div_cancel₀ _ hpos.ne', hr], ?_, ?_⟩
    · rw [one_mul, le_div_iff₀ hpos, mul_comm]
      exact hclose.above
    · rw [div_mul_eq_mul_div, div_le_one hpos]
      exact hclose.below

namespace IsNear

variable {k l : Nat} {x y : Float} {p q : ℚ}

theorem neg (h : IsNear k x q) : IsNear k (-x) (-q) := by
  obtain ⟨factor, hx, hfactor⟩ := h
  exact ⟨factor, by rw [toRat?_neg hx, neg_mul], hfactor⟩

theorem error (h : IsNear k x q) (hk : k * (k + 1) ≤ 2 ^ 53) :
    ∃ r, toRat? x = some r ∧ |r - q| ≤ (k + 1) / 2 ^ 53 * |q| := by
  obtain ⟨factor, hx, hfactor⟩ := h
  refine ⟨_, hx, ?_⟩
  have herror := hfactor.error hk zero_le_one
  rw [mul_one] at herror
  calc |q * factor - q| = |factor - 1| * |q| := by
        rw [← abs_mul]
        congr 1
        ring
    _ ≤ (k + 1) / 2 ^ 53 * |q| := mul_le_mul_of_nonneg_right herror (abs_nonneg q)

theorem toRat?_eq_zero_iff (h : IsNear k x q) : toRat? x = some 0 ↔ q = 0 := by
  obtain ⟨factor, hx, hfactor⟩ := h
  have hpos : 0 < factor :=
    lt_of_lt_of_le (mul_pos one_pos (pow_pos kept_pos k)) hfactor.above
  rw [hx, Option.some.injEq, mul_eq_zero, or_iff_left hpos.ne']

/-- Rounding is one rounding more. -/
theorem rounded {z : Float} {factor : ℚ} (hz : InRange (q * factor) → Rounded z (q * factor))
    (hfactor : Close k factor 1) (hk : k ≤ 100) (hq : Moderate |q|) : IsNear (k + 1) z q := by
  have hpos : 0 < factor := lt_of_lt_of_le (mul_pos one_pos (pow_pos kept_pos k)) hfactor.above
  have habs : |q * factor| = |q| * factor := by rw [abs_mul, abs_of_pos hpos]
  have hrange : InRange (q * factor) := by
    have hself : Close 0 |q| |q| := Close.zero_iff.mpr rfl
    have hscaled := hself.mul hfactor (abs_nonneg q) (abs_nonneg q) hpos.le zero_le_one
    rw [Nat.zero_add, mul_one, ← habs] at hscaled
    have hrange := hq.inRange hk hscaled
    rwa [InRange, abs_abs, abs_eq_zero] at hrange
  obtain ⟨r, hr, herror⟩ := (hz hrange).exists
  have hne : q * factor ≠ 0 := mul_ne_zero (abs_pos.mp hq.pos) hpos.ne'
  have hone : Close 1 (r / (q * factor)) 1 := by
    refine Close.of_part ?_ zero_le_one
    rw [div_sub_one hne, abs_div, div_le_iff₀ (abs_pos.mpr hne), mul_one, one_div_mul_eq_div]
    exact herror
  refine ⟨r / (q * factor) * factor, ?_, ?_⟩
  · rw [hr, mul_left_comm, div_mul_cancel₀ _ hne]
  · have hmul := hone.mul hfactor (IsClose.nonneg hone zero_le_one) zero_le_one hpos.le zero_le_one
    rwa [one_mul, Nat.add_comm] at hmul

theorem mul (hx : IsNear k x p) (hy : IsNear l y q) (hk : k + l ≤ 100)
    (hmoderate : Moderate |p * q|) : IsNear (k + l + 1) (x * y) (p * q) := by
  obtain ⟨s, hs, hsclose⟩ := hx
  obtain ⟨t, ht, htclose⟩ := hy
  have hfactor : Close (k + l) (s * t) 1 := by
    have hmul := hsclose.mul htclose (IsClose.nonneg hsclose zero_le_one) zero_le_one
      (IsClose.nonneg htclose zero_le_one) zero_le_one
    rwa [one_mul] at hmul
  refine rounded (fun hrange => ?_) hfactor hk hmoderate
  rw [← mul_mul_mul_comm] at hrange ⊢
  exact rounded_mul hs ht hrange

end IsNear

end DataRules.Double
