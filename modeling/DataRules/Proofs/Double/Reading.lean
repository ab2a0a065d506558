import DataRules.Proofs.Double.Conversion
import DataRules.Proofs.Double.Scanner

set_option autoImplicit false

/-!
# Reading: the number that a text counts as

A text counts through the longest numeral at its start.  The numeral writes a magnitude,
and the double read is that magnitude rounded, with the sign of the numeral; a sign and
`Infinity` give an infinity, a blank text is zero, and any other text is no number.
-/

namespace DataRules.Double

/-! ## The value of a numeral -/

/-- The magnitude that the numeral writes. -/
def Numeral.magnitude (n : Numeral) : ℚ :=
  (Nat.ofDigitChars 10 n.whole 0 + Nat.ofDigitChars 10 n.fraction 0 / 10 ^ n.fraction.length) *
    10 ^ n.power

/-- The double is what the numeral writes, rounded. -/
def Numeral.IsReadAs (n : Numeral) (x : Float) : Prop :=
  ∃ y, IsRoundingOf y n.magnitude ∧ x = if n.negative then -y else y

/-- Digits are worth what those before them are, shifted, and what they are by themselves. -/
theorem ofDigitChars_eq_add (cs : List Char) (n : Nat) :
    Nat.ofDigitChars 10 cs n = n * 10 ^ cs.length + Nat.ofDigitChars 10 cs 0 := by
  induction cs generalizing n with
  | nil => simp [Nat.ofDigitChars]
  | cons c cs ih =>
      rw [Nat.ofDigitChars_cons, ih, Nat.ofDigitChars_cons, ih (10 * 0 + _), List.length_cons,
        Nat.pow_succ]
      ring

/-- A power of ten may be split between the digits and the exponent. -/
theorem decimal_value (digits : Nat) (places : Nat) (power : Int) :
    (digits : ℚ) * 10 ^ (power - places) = digits / 10 ^ places * 10 ^ power := by
  rw [zpow_sub₀ (by norm_num), zpow_natCast]
  ring

theorem Numeral.decimal_value (n : Numeral) :
    (n.decimal.digits : ℚ) * 10 ^ n.decimal.exponent = n.magnitude := by
  have hdigits : n.decimal.digits = Nat.ofDigitChars 10 n.whole 0 * 10 ^ n.fraction.length +
      Nat.ofDigitChars 10 n.fraction 0 := by
    rw [decimal, Nat.ofDigitChars_append, ofDigitChars_eq_add]
  rw [hdigits, magnitude]
  show _ * (10 : ℚ) ^ (n.power - n.fraction.length) = _
  rw [DataRules.Double.decimal_value]
  push_cast
  rw [add_div, mul_div_cancel_right₀ _ (by positivity)]

/-- A numeral is read by one rounding. -/
theorem Numeral.isReadAs_toFloat (n : Numeral) : n.IsReadAs n.toFloat := by
  refine ⟨n.decimal.toFloat, ?_, rfl⟩
  rw [← n.decimal_value]
  exact n.decimal.isRoundingOf_toFloat

/-- It is read as one double only. -/
theorem Numeral.IsReadAs.unique {n : Numeral} {x y : Float} (hx : n.IsReadAs x)
    (hy : n.IsReadAs y) : x = y := by
  obtain ⟨x', hx', rfl⟩ := hx
  obtain ⟨y', hy', rfl⟩ := hy
  rw [hx'.unique hy']

/-! ## Trimmed characters -/

/-- The characters are a sign, or none, then `Infinity`, and anything after it. -/
def IsInfinite (negative : Bool) (cs : List Char) : Prop :=
  ∃ sign rest, Numeral.IsSign negative sign ∧ cs = sign ++ ("Infinity".toList ++ rest)

section Trimmed

variable {cs text : List Char} {negative : Bool} {n : Numeral}

theorem unsigned_infinity (rest : List Char) : Numeral.Unsigned ("Infinity".toList ++ rest) := by
  intro c hc
  obtain rfl : 'I' = c := Option.some.inj hc
  exact ⟨by decide, by decide⟩

theorem IsInfinite.takeSign (h : IsInfinite negative cs) :
    (Numeral.takeSign cs).1 = negative ∧
      "Infinity".toList.isPrefixOf (Numeral.takeSign cs).2 = true := by
  obtain ⟨sign, rest, hsign, rfl⟩ := h
  rw [Numeral.takeSign_append hsign (unsigned_infinity rest)]
  exact ⟨rfl, List.isPrefixOf_iff_prefix.mpr (List.prefix_append _ _)⟩

/-- An infinity is no numeral. -/
theorem IsInfinite.scan_eq (h : IsInfinite negative cs) : Numeral.scan cs = none := by
  obtain ⟨sign, rest, hsign, rfl⟩ := h
  rw [Numeral.scan, Numeral.takeSign_append hsign (unsigned_infinity rest)]
  rfl

theorem Numeral.IsWritten.not_isInfinite (h : n.IsWritten text) (negative : Bool) :
    ¬IsInfinite negative text := by
  intro hinfinite
  have hscan := h.scan_eq
  rw [hinfinite.scan_eq] at hscan
  cases hscan

theorem isPrefixOf_eq_false (h : ∀ negative, ¬IsInfinite negative cs) :
    "Infinity".toList.isPrefixOf (Numeral.takeSign cs).2 = false := by
  refine Bool.eq_false_iff.mpr fun hstarts => ?_
  obtain ⟨rest, hrest⟩ := List.isPrefixOf_iff_prefix.mp hstarts
  obtain ⟨sign, hcs, hsign⟩ := Numeral.exists_sign cs
  exact h _ ⟨sign, rest, hsign, by rw [hrest, ← hcs]⟩

theorem IsInfinite.ofTrimmed_eq (h : IsInfinite negative cs) :
    ofTrimmed cs = if negative then -infinity else infinity := by
  obtain ⟨hsign, hstarts⟩ := h.takeSign
  have hne : cs ≠ [] := by
    rintro rfl
    cases hstarts
  rw [ofTrimmed, if_neg hne]
  simp only [hstarts, if_true, hsign]

theorem ofTrimmed_of_isLongest (hfinite : ∀ negative, ¬IsInfinite negative cs)
    (hlongest : Numeral.IsLongest cs text) (hwritten : n.IsWritten text) :
    ofTrimmed cs = n.toFloat := by
  obtain ⟨rest, hcs⟩ := hlongest.start
  have hscan := Numeral.scan_eq_some_iff.mpr ⟨text, hcs.symm, hwritten, hlongest⟩
  have hne : cs ≠ [] := by
    rintro rfl
    cases hscan
  rw [ofTrimmed, if_neg hne]
  simp only [isPrefixOf_eq_false hfinite, Bool.false_eq_true, if_false, hscan]

theorem ofTrimmed_of_no_numeral (hne : cs ≠ []) (hfinite : ∀ negative, ¬IsInfinite negative cs)
    (hno : ∀ text n, text <+: cs → ¬Numeral.IsWritten n text) : ofTrimmed cs = nan := by
  rw [ofTrimmed, if_neg hne]
  simp only [isPrefixOf_eq_false hfinite, Bool.false_eq_true, if_false,
    Numeral.scan_eq_none_iff.mpr hno]

/-- A numeral by itself is the longest one. -/
theorem Numeral.IsWritten.isLongest (h : n.IsWritten text) : Numeral.IsLongest text text :=
  ⟨List.prefix_rfl, ⟨n, h⟩, fun hstarts _ => hstarts.length_le⟩

/-- Where a numeral stands at the start, there is a longest one. -/
theorem exists_isLongest (hstarts : text <+: cs) (hwritten : n.IsWritten text) :
    ∃ text' n', Numeral.IsLongest cs text' ∧ Numeral.IsWritten n' text' := by
  cases hscan : Numeral.scan cs with
  | none => exact absurd hwritten (Numeral.scan_eq_none_iff.mp hscan text n hstarts)
  | some taken =>
      obtain ⟨n', rest⟩ := taken
      obtain ⟨text', -, hwritten', hlongest⟩ := Numeral.scan_eq_some_iff.mp hscan
      exact ⟨text', n', hlongest, hwritten'⟩

theorem Numeral.IsLongest.unique {text' : List Char} (h : IsLongest cs text)
    (h' : IsLongest cs text') : text = text' := by
  obtain ⟨n, hwritten⟩ := h.numeral
  obtain ⟨n', hwritten'⟩ := h'.numeral
  have hle := h.longest h'.start hwritten'
  have hstarts := List.prefix_of_prefix_length_le h.start h'.start (h'.longest h.start hwritten)
  exact hstarts.eq_of_length_le hle

/-- The scan by bytes ends behind the longest numeral, if there is one. -/
theorem pastNumeral?_eq_some_iff {past : Nat} :
    Scanner.pastNumeral? (Scanner.code cs) (Scanner.pastSign (Scanner.code cs) 0) = some past ↔
      ∃ text, Numeral.IsLongest cs text ∧ past = (Scanner.code text).length := by
  have hnumeral := Scanner.pastNumeral?_eq cs (Scanner.At.start cs).pastSign
  cases hscan : Numeral.scan cs with
  | none =>
      rw [hscan] at hnumeral
      rw [hnumeral]
      constructor
      · intro h
        cases h
      · rintro ⟨text, hlongest, -⟩
        obtain ⟨n, hwritten⟩ := hlongest.numeral
        exact absurd hwritten (Numeral.scan_eq_none_iff.mp hscan text n hlongest.start)
  | some taken =>
      obtain ⟨n, rest⟩ := taken
      rw [hscan] at hnumeral
      obtain ⟨end_, hend, hat⟩ := hnumeral
      obtain ⟨text, hcs, -, hlongest⟩ := Numeral.scan_eq_some_iff.mp hscan
      rw [hend, (hat.cut? hcs).1, Option.some.injEq]
      constructor
      · rintro rfl
        exact ⟨text, hlongest, rfl⟩
      · rintro ⟨text', hlongest', rfl⟩
        rw [hlongest.unique hlongest']

end Trimmed

/-! ## Texts -/

/-- How a text counts as a number, by what is left of it without the blanks around it. -/
structure ReadsLongest (s : String) : Prop where
  /-- When nothing is left, the text is zero. -/
  blank : Text.trim s.toList = [] → ofText s = 0
  /-- A sign, or none, before `Infinity` gives an infinity, whatever follows. -/
  infinite : ∀ {negative : Bool}, IsInfinite negative (Text.trim s.toList) →
    ofText s = if negative then -infinity else infinity
  /-- Otherwise, when some beginning is a numeral, the longest such beginning is read, and
  what its digits write is rounded to the nearest double. -/
  numeral : (∀ negative, ¬IsInfinite negative (Text.trim s.toList)) →
    (∃ text n, text <+: Text.trim s.toList ∧ Numeral.IsWritten n text) →
    ∃ text n, Numeral.IsLongest (Text.trim s.toList) text ∧ Numeral.IsWritten n text ∧
      Scanner.parse? text = some (ofText s) ∧ n.IsReadAs (ofText s)
  /-- All else is no number. -/
  unread : Text.trim s.toList ≠ [] → (∀ negative, ¬IsInfinite negative (Text.trim s.toList)) →
    (∀ text n, text <+: Text.trim s.toList → ¬Numeral.IsWritten n text) → ofText s = nan
  /-- The position that the scan by bytes ends at is behind the longest numeral, so between
  two characters or at the end. -/
  ends : ∀ {past : Nat}, Scanner.pastNumeral? (Scanner.code (Text.trim s.toList))
      (Scanner.pastSign (Scanner.code (Text.trim s.toList)) 0) = some past ↔
    ∃ text, Numeral.IsLongest (Text.trim s.toList) text ∧ past = (Scanner.code text).length
  /-- Cutting the text only between characters and within its length, and reading by itself
  only what is a numeral, the scan by bytes finds the same double. -/
  checked : Scanner.read? (Text.trim s.toList) = some (ofText s)

/-- Every text counts as a number through its longest numeral. -/
theorem readsLongest (s : String) : ReadsLongest s where
  blank := by
    intro hblank
    rw [ofText, hblank]
    rfl
  infinite := IsInfinite.ofTrimmed_eq
  numeral := by
    rintro hfinite ⟨text, n, hstarts, hwritten⟩
    obtain ⟨text', n', hlongest, hwritten'⟩ := exists_isLongest hstarts hwritten
    have hread := ofTrimmed_of_isLongest hfinite hlongest hwritten'
    rw [ofText, hread]
    exact ⟨text', n', hlongest, hwritten', Scanner.parse?_eq_some_iff.mpr ⟨n', hwritten', rfl⟩,
      n'.isReadAs_toFloat⟩
  unread := ofTrimmed_of_no_numeral
  ends := pastNumeral?_eq_some_iff
  checked := Scanner.read?_eq _

/-- A power without digits does not count, nor does what follows an infinity, and a point alone
is no numeral. -/
example : ofText " 1e+" = 1 ∧ ofText "-Infinityx" = -infinity ∧ ofText "." = nan := by
  decide +kernel

end DataRules.Double
