import DataRules.Proofs.Double.Texts
import DataRules.Proofs.Eval.Neutrality
import DataRules.Proofs.Value.Equality

set_option autoImplicit false

/-!
# ReadBack: the text of a number counts as the number

An integer and a double are written by different means, and all texts are read by one
scanner.  The text of every number but NaN is read whole, so a number and its text are
loosely equal, and a sum is the same over the texts that `cat` makes of numbers.
-/

namespace DataRules

open DataRules.Double (IsReadWhole ReadsWholeAs ofText)

namespace Number

/-- The double of the number, where the zero with a minus sign has lost it. -/
def unsignedZero (n : Number) : Float := if n.toFloat = -0 then 0 else n.toFloat

/-- The text of a number but NaN is read whole. -/
theorem readsWholeAs_text {n : Number} (hn : n.toFloat.isNaN = false) :
    ReadsWholeAs n.text.toList n.unsignedZero := by
  cases n with
  | int i =>
      rw [unsignedZero, toFloat, if_neg (Double.ofInt_ne_negZero _), text, String.toList_ofList]
      exact Double.readsWholeAs_intChars i.toInt
  | float x =>
      rw [text, Double.Layout.text, String.toList_ofList]
      exact Double.readsWholeAs_plain hn

/-- The text of a number counts as that number. -/
theorem ofText_text (n : Number) : ofText n.text = n.unsignedZero := by
  cases hn : n.toFloat.isNaN with
  | false =>
      have hread := readsWholeAs_text hn
      rw [ofText, hread.trimmed, hread.reads]
  | true =>
      cases n with
      | int i => exact absurd hn (Double.isNaN_ofInt_eq_false _ ▸ Bool.false_ne_true)
      | float x =>
          obtain rfl : x = Double.nan := Double.eq_nan_of_isNaN hn
          decide +kernel

theorem isEqual_unsignedZero {n : Number} (hn : n.toFloat.isNaN = false) :
    Double.isEqual n.toFloat n.unsignedZero = true := by
  unfold unsignedZero
  split
  · next hzero =>
      rw [hzero]
      decide +kernel
  · rw [Double.isEqual_self, hn, Bool.not_false]

end Number

namespace Registry

variable {σ : Type}

/-- The rule that puts the texts of some rules together. -/
def catOf (rules : List Value) : Value := .object [("cat", .list rules)]

/-- What becomes of a number through its text. -/
structure ReadsBack (σ : Type) (n : Number) (data : Value) : Prop where
  /-- Unless the number is NaN, there are no blanks around its text, and the text is read
  whole: it is one numeral, or a sign and `Infinity`. -/
  whole : n.toFloat.isNaN = false →
    Text.trim (Value.number n).toText.toList = (Value.number n).toText.toList ∧
      IsReadWhole (Value.number n).toText.toList
  /-- The text counts as the double of the number, NaN as NaN, and the zero with a minus
  sign as zero. -/
  number : (Value.text (Value.number n).toText).toNumber =
    if (Value.number n).toNumber = -0 then 0 else (Value.number n).toNumber
  /-- Unless the number is NaN, it and its text are loosely equal, both ways round. -/
  equal : n.toFloat.isNaN = false →
    (Value.number n).looselyEquals (.text (Value.number n).toText) = true ∧
      (Value.text (Value.number n).toText).looselyEquals (.number n) = true
  /-- Adding up the text of the number gives what adding up the number gives. -/
  sum : (builtins : Registry σ).apply (sumOf [catOf [.number n]]) data =
    builtins.apply (sumOf [.number n]) data

theorem apply_catOf (n : Number) (data : Value) :
    (builtins : Registry σ).apply (catOf [.number n]) data =
      pure (.text (Value.number n).toText) := by
  have hcat : (builtins : Registry σ).apply (catOf [.number n]) data =
      Control.evaluateAll ([.number n].map builtins.apply) data >>= fun args =>
        pure (Builtin.concat args) :=
    apply_builtin rfl (invoke_builtins_of_lookup rfl data) _
  have hconcat : Builtin.concat [.number n] = .text (Value.number n).toText := by
    simp [Builtin.concat, Value.inlineText]
  rw [hcat, ← hconcat]
  rfl

theorem apply_sumOf_singleton {rule v data : Value}
    (hrule : (builtins : Registry σ).apply rule data = pure v) :
    (builtins : Registry σ).apply (sumOf [rule]) data =
      pure (.number (Arithmetic.add.apply (Number.int 0).toFloat v.toNumber)) := by
  rw [apply_sumOf, Control.evaluateAll, List.map_singleton, List.mapM_cons, hrule]
  rfl

theorem add_unsignedZero (n : Number) :
    Arithmetic.add.apply (Number.int 0).toFloat n.unsignedZero =
      Arithmetic.add.apply (Number.int 0).toFloat n.toFloat := by
  unfold Number.unsignedZero
  split
  · next hzero =>
      rw [hzero]
      decide +kernel
  · rfl

/-- Every number reads back from its text. -/
theorem readsBack (n : Number) (data : Value) : ReadsBack σ n data where
  whole := by
    intro hn
    have hread := n.readsWholeAs_text hn
    exact ⟨hread.trimmed, hread.whole⟩
  number := n.ofText_text
  equal := by
    intro hn
    have hequal := Number.isEqual_unsignedZero hn
    rw [← n.ofText_text] at hequal
    have hloosely : (Value.number n).looselyEquals (.text (Value.number n).toText) = true := hequal
    exact ⟨hloosely, (Value.looselyEquals_comm _ _).trans hloosely⟩
  sum := by
    rw [apply_sumOf_singleton (apply_catOf n data), apply_sumOf_singleton (v := .number n) rfl]
    show pure (Value.number (Arithmetic.add.apply _ (ofText n.text))) = _
    rw [n.ofText_text, add_unsignedZero]
    rfl

end Registry

end DataRules
