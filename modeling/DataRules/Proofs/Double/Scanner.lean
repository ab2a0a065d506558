import DataRules.Proofs.Double.Grammar
import DataRules.Proofs.Text.Bytes

set_option autoImplicit false

/-!
# Scanner: a numeral by its bytes

A text that is to count as a number is also scanned by the positions of its bytes: digits
are passed, a point and a power are passed when digits make them count, and the text is
cut at the position reached and read by itself.  A cut must fall between characters and a
text by itself must be a numeral; written on primitives that give nothing otherwise, the
scan still gives a double for every text, and the one that the text reads as.
-/

namespace DataRules.Double.Scanner

/-! ## Bytes -/

/-- The UTF-8 bytes of the characters. -/
def code (cs : List Char) : List UInt8 := Text.bytes (String.ofList cs)

/-- The byte at the position, if there is one, is an ASCII character with the property. -/
def isAt (property : Char → Bool) (bytes : List UInt8) (position : Nat) : Bool :=
  bytes[position]?.any fun byte => decide (byte.toNat < 128) && property (Char.ofNat byte.toNat)

/-- The character is a sign. -/
def isSign (c : Char) : Bool := c == '-' || c == '+'

/-- The character starts a power of ten. -/
def isMark (c : Char) : Bool := c == 'e' || c == 'E'

theorem lt_length_of_isAt {property : Char → Bool} {bytes : List UInt8} {position : Nat}
    (h : isAt property bytes position = true) : position < bytes.length := by
  unfold isAt at h
  by_contra hle
  rw [List.getElem?_eq_none (Nat.le_of_not_lt hle)] at h
  cases h

/-! ## The scan -/

/-- The first position from `position` on that has no digit. -/
def pastDigits (bytes : List UInt8) (position : Nat) : Nat :=
  if h : isAt Char.isDigit bytes position = true then pastDigits bytes (position + 1) else position
termination_by bytes.length - position
decreasing_by
  have := lt_length_of_isAt h
  omega

/-- The position past a sign, if there is one. -/
def pastSign (bytes : List UInt8) (position : Nat) : Nat :=
  if isAt isSign bytes position then position + 1 else position

/-- The position past a power of ten, when it has digits. -/
def pastPower (bytes : List UInt8) (position : Nat) : Nat :=
  if isAt isMark bytes position then
    let first := pastSign bytes (position + 1)
    let past := pastDigits bytes first
    if first < past then past else position
  else position

/-- The position past the numeral whose digits start at `start`, if there are any. -/
def pastNumeral? (bytes : List UInt8) (start : Nat) : Option Nat :=
  let wholeEnd := pastDigits bytes start
  let pointed := isAt (· == '.') bytes wholeEnd
  let fractionEnd := pastDigits bytes (wholeEnd + 1)
  let digits := wholeEnd - start + if pointed then fractionEnd - (wholeEnd + 1) else 0
  if digits = 0 then none
  else some (pastPower bytes (if pointed then fractionEnd else wholeEnd))

/-- The characters before and after a position among their bytes, which must not be inside
a character nor past the end. -/
def cut? : List Char → Nat → Option (List Char × List Char)
  | cs, 0 => some ([], cs)
  | [], _ + 1 => none
  | c :: cs, n + 1 =>
      if c.utf8Size ≤ n + 1 then
        (cut? cs (n + 1 - c.utf8Size)).map fun (front, back) => (c :: front, back)
      else none

/-- The double that a text by itself reads as, which must be a numeral. -/
def parse? (text : List Char) : Option Float :=
  match Numeral.scan text with
  | some (n, []) => some n.toFloat
  | _ => none

/-- The double that trimmed characters read as, found by their bytes. -/
def read? (cs : List Char) : Option Float :=
  if cs = [] then some 0
  else do
    let bytes := code cs
    let start := pastSign bytes 0
    let (_, body) ← cut? cs start
    if "Infinity".toList.isPrefixOf body then
      pure (if isAt (· == '-') bytes 0 then -infinity else infinity)
    else
      match pastNumeral? bytes start with
      | none => pure nan
      | some past => do
          let (text, _) ← cut? cs past
          parse? text

/-! ## Positions -/

/-- The position is where the bytes of `rest` begin. -/
def At (bytes : List UInt8) (position : Nat) (rest : List Char) : Prop :=
  ∃ front, bytes = front ++ code rest ∧ position = front.length

theorem code_eq_flatMap (cs : List Char) : code cs = cs.flatMap String.utf8EncodeChar := by
  rw [code, Text.bytes_eq_flatMap, String.toList_ofList]

theorem code_cons (c : Char) (cs : List Char) :
    code (c :: cs) = String.utf8EncodeChar c ++ code cs := by
  rw [code_eq_flatMap, List.flatMap_cons, ← code_eq_flatMap]

theorem code_append (cs ds : List Char) : code (cs ++ ds) = code cs ++ code ds := by
  rw [code_eq_flatMap, List.flatMap_append, ← code_eq_flatMap, ← code_eq_flatMap]

/-- The first byte of a character says which ASCII character it is, or that it is none. -/
theorem exists_lead (c : Char) : ∃ byte more, String.utf8EncodeChar c = byte :: more ∧
    (c.toNat < 128 ∧ byte.toNat = c.toNat ∧ more = [] ∨ 128 ≤ c.toNat ∧ 128 ≤ byte.toNat) := by
  have hvalue : c.toNat = c.val.toNat := rfl
  rw [hvalue]
  unfold String.utf8EncodeChar
  generalize c.val.toNat = n
  dsimp only
  split
  · refine ⟨_, _, rfl, .inl ⟨by omega, ?_, rfl⟩⟩
    rw [UInt8.toNat_ofNat']
    omega
  · split
    · refine ⟨_, _, rfl, .inr ⟨by omega, ?_⟩⟩
      rw [UInt8.toNat_ofNat']
      omega
    · split
      · refine ⟨_, _, rfl, .inr ⟨by omega, ?_⟩⟩
        rw [UInt8.toNat_ofNat']
        omega
      · refine ⟨_, _, rfl, .inr ⟨by omega, ?_⟩⟩
        rw [UInt8.toNat_ofNat']
        omega

/-- The property holds of ASCII characters only. -/
def IsAscii (property : Char → Bool) : Prop := ∀ c, property c = true → c.toNat < 128

theorem isAscii_isDigit : IsAscii Char.isDigit := by
  intro c h
  rw [Char.isDigit, Bool.and_eq_true, decide_eq_true_iff, decide_eq_true_iff] at h
  exact Nat.lt_of_le_of_lt (UInt32.le_iff_toNat_le.mp h.2) (by decide)

theorem isAscii_beq {d : Char} (h : d.toNat < 128) : IsAscii (· == d) := by
  intro c hc
  rwa [beq_iff_eq.mp hc]

theorem isAscii_or {left right : Char → Bool} (hleft : IsAscii left) (hright : IsAscii right) :
    IsAscii fun c => left c || right c := by
  intro c hc
  exact (Bool.or_eq_true_iff.mp hc).elim (hleft c) (hright c)

theorem isAscii_isSign : IsAscii isSign :=
  isAscii_or (isAscii_beq (by decide)) (isAscii_beq (by decide))

theorem isAscii_isMark : IsAscii isMark :=
  isAscii_or (isAscii_beq (by decide)) (isAscii_beq (by decide))

section At

variable {bytes : List UInt8} {position : Nat} {c : Char} {cs rest : List Char}
  {property : Char → Bool}

theorem At.start (cs : List Char) : At (code cs) 0 cs := ⟨[], (List.nil_append _).symm, rfl⟩

/-- What stands at a position is told from its first byte. -/
theorem At.isAt_eq (h : At bytes position rest)
    (hproperty : IsAscii property) :
    isAt property bytes position = rest.head?.any property := by
  obtain ⟨front, rfl, rfl⟩ := h
  unfold isAt
  rw [List.getElem?_append_right (Nat.le_refl _), Nat.sub_self]
  cases rest with
  | nil => rfl
  | cons c cs =>
      obtain ⟨byte, more, hcode, hbyte⟩ := exists_lead c
      rw [code_cons, hcode, List.cons_append, List.getElem?_cons_zero, Option.any_some,
        List.head?_cons, Option.any_some]
      rcases hbyte with ⟨hlt, hsame, -⟩ | ⟨hle, hle'⟩
      · rw [hsame, decide_eq_true hlt, Bool.true_and]
        congr 1
        exact Char.ofNat_toNat c
      · have hno : property c = false := by
          refine Bool.eq_false_iff.mpr fun hyes => ?_
          exact absurd (hproperty c hyes) (Nat.not_lt_of_le hle)
        rw [decide_eq_false (Nat.not_lt_of_le hle'), Bool.false_and, hno]

/-- An ASCII character takes one position. -/
theorem At.next (h : At bytes position (c :: cs)) (hc : c.toNat < 128) :
    At bytes (position + 1) cs := by
  obtain ⟨front, rfl, rfl⟩ := h
  obtain ⟨byte, more, hcode, ⟨-, -, rfl⟩ | ⟨hle, -⟩⟩ := exists_lead c
  · refine ⟨front ++ [byte], ?_, ?_⟩
    · rw [code_cons, hcode, List.append_assoc]
    · rw [List.length_append, List.length_singleton]
  · exact absurd hc (Nat.not_lt_of_le hle)

/-- The scan passes the digits that are there. -/
theorem At.pastDigits (h : At bytes position cs) :
    At bytes (pastDigits bytes position) (Numeral.takeDigits cs).2 ∧
      Scanner.pastDigits bytes position = position + (Numeral.takeDigits cs).1.length := by
  induction cs generalizing position with
  | nil =>
      have hno := h.isAt_eq isAscii_isDigit
      rw [Scanner.pastDigits, hno]
      exact ⟨h, rfl⟩
  | cons c cs ih =>
      have hdigit := h.isAt_eq isAscii_isDigit
      rw [List.head?_cons, Option.any_some] at hdigit
      rw [Scanner.pastDigits, hdigit]
      cases hc : c.isDigit with
      | false =>
          rw [Numeral.takeDigits_of_not_isDigit hc]
          exact ⟨h, rfl⟩
      | true =>
          have hsingle : Numeral.AreDigits [c] := List.forall_mem_singleton.mpr hc
          have htake := Numeral.takeDigits_of_areDigits hsingle cs
          obtain ⟨hat, hcount⟩ := ih (h.next (isAscii_isDigit c hc))
          rw [List.singleton_append] at htake
          rw [htake, List.length_append, List.length_singleton]
          refine ⟨hat, hcount.trans ?_⟩
          omega

theorem isMark_iff : isMark c = true ↔ c = 'e' ∨ c = 'E' := by simp [isMark]

theorem isSign_iff : isSign c = true ↔ c = '-' ∨ c = '+' := by simp [isSign]

theorem takeSign_of_isSign (hc : isSign c = true) (cs : List Char) :
    Numeral.takeSign (c :: cs) = (c == '-', cs) := by
  rcases isSign_iff.mp hc with rfl | rfl
  · rfl
  · rfl

theorem takeSign_of_unsigned (h : Numeral.Unsigned cs) : Numeral.takeSign cs = (false, cs) :=
  Numeral.takeSign_append .none h

theorem At.pastSign (h : At bytes position cs) :
    At bytes (pastSign bytes position) (Numeral.takeSign cs).2 := by
  rw [Scanner.pastSign, h.isAt_eq isAscii_isSign]
  cases cs with
  | nil => exact h
  | cons c cs =>
      rw [List.head?_cons, Option.any_some]
      cases hc : isSign c with
      | true =>
          rw [takeSign_of_isSign hc]
          exact h.next (isAscii_isSign c hc)
      | false =>
          rw [takeSign_of_unsigned]
          · exact h
          · rintro d hd
            obtain rfl : c = d := Option.some.inj hd
            exact not_or.mp (isSign_iff.not.mp (Bool.eq_false_iff.mp hc))

theorem At.pastPower (h : At bytes position cs) :
    At bytes (pastPower bytes position) (Numeral.takePower cs).2 := by
  rw [Scanner.pastPower, h.isAt_eq isAscii_isMark]
  cases cs with
  | nil => exact h
  | cons c cs =>
      rw [List.head?_cons, Option.any_some, Numeral.takePower]
      cases hc : isMark c with
      | false =>
          rw [if_neg (isMark_iff.not.mp (Bool.eq_false_iff.mp hc))]
          exact h
      | true =>
          obtain ⟨hpast, hcount⟩ := (h.next (isAscii_isMark c hc)).pastSign.pastDigits
          simp only [if_true, if_pos (isMark_iff.mp hc)]
          by_cases hdigits : (Numeral.takeDigits (Numeral.takeSign cs).2).1 = []
          · rw [if_pos hdigits, if_neg]
            · exact h
            · rw [hcount, hdigits]
              exact Nat.lt_irrefl _
          · rw [if_neg hdigits, if_pos]
            · exact hpast
            · rw [hcount]
              exact Nat.lt_add_of_pos_right (List.length_pos_iff.mpr hdigits)

theorem takeFraction_of_ne (hc : c ≠ '.') (cs : List Char) :
    Numeral.takeFraction (c :: cs) = ([], c :: cs) := by
  unfold Numeral.takeFraction
  split
  · next heq => exact absurd (List.cons.inj heq).1 hc
  · rfl

theorem At.pastFraction (h : At bytes position cs) :
    At bytes (if isAt (· == '.') bytes position then Scanner.pastDigits bytes (position + 1)
        else position) (Numeral.takeFraction cs).2 ∧
      (if isAt (· == '.') bytes position then
          Scanner.pastDigits bytes (position + 1) - (position + 1) else 0) =
        (Numeral.takeFraction cs).1.length := by
  have hpoint : '.'.toNat < 128 := by decide
  rw [h.isAt_eq (isAscii_beq hpoint)]
  cases cs with
  | nil => exact ⟨h, rfl⟩
  | cons c tail =>
      rw [List.head?_cons, Option.any_some]
      by_cases hc : c = '.'
      · subst hc
        obtain ⟨hat, hcount⟩ := (h.next hpoint).pastDigits
        rw [beq_self_eq_true, if_pos rfl, if_pos rfl, hcount]
        rw [hcount] at hat
        exact ⟨hat, Nat.add_sub_cancel_left _ _⟩
      · rw [beq_false_of_ne hc, takeFraction_of_ne hc]
        exact ⟨h, rfl⟩

/-- The scan by bytes ends where the scan by characters does, and finds nothing where that
finds nothing. -/
theorem pastNumeral?_eq (cs : List Char) (h : At bytes position (Numeral.takeSign cs).2) :
    match Numeral.scan cs with
    | none => pastNumeral? bytes position = none
    | some (_, rest) => ∃ past, pastNumeral? bytes position = some past ∧ At bytes past rest := by
  obtain ⟨hwhole, hcount⟩ := h.pastDigits
  obtain ⟨hfraction, hcount'⟩ := hwhole.pastFraction
  have hdigits : ∀ {whole fraction : List Char},
      whole.length + fraction.length = 0 ↔ whole = [] ∧ fraction = [] := by
    intro whole fraction
    rw [Nat.add_eq_zero_iff, List.length_eq_zero_iff, List.length_eq_zero_iff]
  rw [pastNumeral?, Numeral.scan]
  simp only [hcount', hdigits, show pastDigits bytes position - position =
    (Numeral.takeDigits (Numeral.takeSign cs).2).1.length by omega]
  by_cases hempty : (Numeral.takeDigits (Numeral.takeSign cs).2).1 = [] ∧
      (Numeral.takeFraction (Numeral.takeDigits (Numeral.takeSign cs).2).2).1 = []
  · rw [if_pos hempty, if_pos hempty]
  · rw [if_neg hempty, if_neg hempty]
    exact ⟨_, rfl, hfraction.pastPower⟩

/-- A cut where the bytes of the rest begin is between characters. -/
theorem cut?_append (cs rest : List Char) :
    cut? (cs ++ rest) (code cs).length = some (cs, rest) := by
  induction cs with
  | nil =>
      rw [List.nil_append]
      cases rest <;> rfl
  | cons c cs ih =>
      have hsize := Char.utf8Size_pos c
      rw [List.cons_append, code_cons, List.length_append, String.length_utf8EncodeChar]
      obtain ⟨n, hn⟩ : ∃ n, c.utf8Size + (code cs).length = n + 1 :=
        ⟨c.utf8Size + (code cs).length - 1, by omega⟩
      rw [hn, cut?, if_pos (by omega), show n + 1 - c.utf8Size = (code cs).length by omega, ih]
      rfl

theorem At.cut? {text : List Char} (h : At (code cs) position rest) (hcs : cs = text ++ rest) :
    position = (code text).length ∧ cut? cs position = some (text, rest) := by
  obtain ⟨front, hcode, rfl⟩ := h
  rw [hcs, code_append] at hcode
  obtain rfl := List.append_cancel_right hcode
  exact ⟨rfl, hcs ▸ cut?_append text rest⟩

theorem isAt_minus (cs : List Char) :
    isAt (· == '-') (code cs) 0 = (Numeral.takeSign cs).1 := by
  rw [(At.start cs).isAt_eq (isAscii_beq (by decide))]
  unfold Numeral.takeSign
  split
  · rfl
  · rfl
  · next hminus _ =>
      cases cs with
      | nil => rfl
      | cons c cs => exact beq_false_of_ne fun hc => hminus cs (congrArg (· :: cs) hc)

end At

/-! ## Reading -/

/-- What reads by itself is a numeral. -/
theorem parse?_eq_some_iff {text : List Char} {x : Float} :
    parse? text = some x ↔ ∃ n : Numeral, n.IsWritten text ∧ n.toFloat = x := by
  constructor
  · intro h
    unfold parse? at h
    split at h
    · next n hscan =>
        obtain ⟨text', htext, hwritten⟩ := Numeral.isWritten_of_scan hscan
        rw [List.append_nil] at htext
        exact ⟨n, htext ▸ hwritten, Option.some.inj h⟩
    · cases h
  · rintro ⟨n, hwritten, rfl⟩
    rw [parse?, hwritten.scan_eq]

/-- The scan by bytes never cuts a character, never goes past the end and always ends at a
text that is a numeral by itself. -/
theorem read?_eq (cs : List Char) : read? cs = some (ofTrimmed cs) := by
  unfold read? ofTrimmed
  by_cases hempty : cs = []
  · rw [if_pos hempty, if_pos hempty]
  · obtain ⟨sign, hcs, -⟩ := Numeral.exists_sign cs
    have hsign := (At.start cs).pastSign
    have hnumeral := pastNumeral?_eq cs hsign
    rw [if_neg hempty, if_neg hempty]
    simp only [(hsign.cut? hcs).2, isAt_minus, Option.bind_eq_bind, Option.bind_some,
      Option.pure_def]
    split
    · rfl
    · cases hscan : Numeral.scan cs with
      | none =>
          rw [hscan] at hnumeral
          simp only [hnumeral]
      | some taken =>
          obtain ⟨n, rest⟩ := taken
          rw [hscan] at hnumeral
          obtain ⟨past, hpast, hat⟩ := hnumeral
          obtain ⟨text, htext, hwritten⟩ := Numeral.isWritten_of_scan hscan
          simp only [hpast, (hat.cut? htext).2, Option.bind_some]
          exact parse?_eq_some_iff.mpr ⟨n, hwritten, rfl⟩

end DataRules.Double.Scanner
