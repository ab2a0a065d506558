import DataRules.Proofs.Double.Truncation
import DataRules.Proofs.Eval.Checked
import DataRules.Proofs.Eval.Mirror

set_option autoImplicit false

/-!
# Substring: the stretch of a text that is asked for

`substr` gives the characters of a text from one position to another.  Its start and its
length are doubles cut toward zero, and either may lie far outside of the text, below zero
or at an infinity.  Whatever they are, the positions they stand for are clipped to the
text, and nothing of it is lost between a stretch that ends at a position and the stretch
that starts there.
-/

namespace DataRules

open Double (Extended cut)

/-! ## Where a stretch starts and ends -/

/-- Where a stretch starts in a text of some size: a position below zero counts from the
end. -/
noncomputable def stretchStart (size start : Extended) : Extended :=
  if start < 0 then max 0 (size + start) else min start size

/-- Where a stretch ends that starts at `first`: at the end of the text, or after the
length, which counts from the end of the text when it is below zero. -/
noncomputable def stretchEnd (size first : Extended) : Option Extended → Extended
  | none => size
  | some length => if length < 0 then max first (size + length) else min size (first + length)

/-- The part is the stretch of the text from the one position to the other. -/
structure IsStretch (text : List Char) (start : Extended) (length? : Option Extended)
    (first past : ℕ) (part : List Char) : Prop where
  first_eq : Extended.ofInt first = stretchStart (.ofInt text.length) start
  past_eq : Extended.ofInt past = stretchEnd (.ofInt text.length) (.ofInt first) length?
  first_le : first ≤ past
  past_le : past ≤ text.length
  part_eq : part = (text.take past).drop first

/-- The integer is the one of `[-size, size]` nearest to the extended one. -/
def ClipsTo (size : ℕ) (e : Extended) (i : ℤ) : Prop :=
  Extended.ofInt i = max (.ofInt (-size)) (min (.ofInt size) e)

variable {size first : ℕ} {e : Extended} {i : ℤ}

theorem ClipsTo.cases (h : ClipsTo size e i) :
    e = ⊥ ∧ i = -size ∨ e = ⊤ ∧ i = size ∨
      ∃ j, e = Extended.ofInt j ∧ i = max (-(size : ℤ)) (min size j) := by
  unfold ClipsTo at h
  rcases e.eq_bot_or_eq_top_or_ofInt with rfl | rfl | ⟨j, rfl⟩
  · rw [min_bot_right, max_bot_right] at h
    exact .inl ⟨rfl, Extended.ofInt_inj.mp h⟩
  · rw [min_top_right, Extended.ofInt_max] at h
    refine .inr (.inl ⟨rfl, ?_⟩)
    have hi := Extended.ofInt_inj.mp h
    omega
  · rw [Extended.ofInt_min, Extended.ofInt_max] at h
    exact .inr (.inr ⟨j, rfl, Extended.ofInt_inj.mp h⟩)

/-- Clipping the start first makes no difference to where the stretch starts. -/
theorem stretchStart_eq (h : ClipsTo size e i) :
    stretchStart (.ofInt size) e = .ofInt (if i < 0 then size + i else min i size) := by
  rw [stretchStart, ← Extended.ofInt_zero]
  rcases h.cases with ⟨rfl, rfl⟩ | ⟨rfl, rfl⟩ | ⟨j, rfl, rfl⟩
  · rw [if_pos Extended.bot_lt_ofInt, WithBot.add_bot, max_bot_right]
    congr 1
    split <;> omega
  · rw [if_neg not_top_lt, min_top_left]
    congr 1
    split <;> omega
  · simp only [Extended.ofInt_lt_ofInt, Extended.ofInt_add, Extended.ofInt_max, Extended.ofInt_min,
      ← apply_ite Extended.ofInt]
    congr 1
    split <;> split <;> omega

/-- Clipping the length first makes no difference to where the stretch ends. -/
theorem stretchEnd_eq (h : ClipsTo size e i) (hfirst : first ≤ size) :
    stretchEnd (.ofInt size) (.ofInt first) (some e) =
      .ofInt (if i < 0 then max first (size + i) else min size (first + i)) := by
  rw [stretchEnd, ← Extended.ofInt_zero]
  rcases h.cases with ⟨rfl, rfl⟩ | ⟨rfl, rfl⟩ | ⟨j, rfl, rfl⟩
  · rw [if_pos Extended.bot_lt_ofInt, WithBot.add_bot, max_bot_right]
    congr 1
    split <;> omega
  · rw [if_neg not_top_lt, Extended.ofInt_add_top, min_top_right]
    congr 1
    split <;> omega
  · simp only [Extended.ofInt_lt_ofInt, Extended.ofInt_add, Extended.ofInt_max, Extended.ofInt_min,
      ← apply_ite Extended.ofInt]
    congr 1
    split <;> split <;> omega

/-- The stretch between the clipped positions is the stretch that is sliced. -/
theorem slice_eq {text : List Char} {start : ℤ} (hstart : -(text.length : ℤ) ≤ start)
    (length? : Option ℤ) {first past : ℕ}
    (hfirst : (first : ℤ) = if start < 0 then text.length + start else min start text.length)
    (hpast : (past : ℤ) = match length? with
      | none => (text.length : ℤ)
      | some length =>
          if length < 0 then max first (text.length + length)
          else min text.length (first + length)) :
    Builtin.slice text start length? = (text.take past).drop first := by
  refine Checked.drop_take_eq_of_positions ?_
  cases length? with
  | none =>
      simp only at hpast ⊢
      omega
  | some length =>
      simp only at hpast ⊢
      omega

/-- Both count from the end. -/
example : Builtin.slice "jsonlogic".toList (-5) (some (-2)) = "log".toList := by decide

/-- Every slice of a text is the stretch that its start and its length ask for. -/
theorem exists_isStretch (text : List Char) (x : Float) (y? : Option Float) :
    ∃ first past, IsStretch text (cut x) (y?.map cut) first past
      (Builtin.slice text (Double.truncateWithin text.length x)
        (y?.map (Double.truncateWithin text.length))) := by
  have hlow := Double.neg_bound_le_truncateWithin text.length x
  have hstart := stretchStart_eq (Double.truncateWithin_eq text.length x)
  generalize Double.truncateWithin text.length x = start at hlow hstart ⊢
  obtain ⟨first, hfirst⟩ := Int.eq_ofNat_of_zero_le
    (a := if start < 0 then text.length + start else min start text.length) (by split <;> omega)
  have hbound : first ≤ text.length := by split at hfirst <;> omega
  rw [hfirst] at hstart
  cases y? with
  | none =>
      exact ⟨first, text.length, hstart.symm, rfl, hbound, le_rfl,
        slice_eq hlow none hfirst.symm rfl⟩
  | some y =>
      have hend := stretchEnd_eq (Double.truncateWithin_eq text.length y) hbound
      rw [Option.map_some, Option.map_some]
      generalize Double.truncateWithin text.length y = length at hend ⊢
      obtain ⟨past, hpast⟩ := Int.eq_ofNat_of_zero_le
        (a := if length < 0 then max first (text.length + length)
          else min text.length (first + length)) (by split <;> omega)
      rw [hpast] at hend
      refine ⟨first, past, hstart.symm, hend.symm, ?_, ?_,
        slice_eq hlow (some length) hfirst.symm hpast.symm⟩
      · split at hpast <;> omega
      · split at hpast <;> omega

/-- From the front of a text, a position is reached as a length and as a start alike. -/
theorem stretchEnd_zero_eq (size position : Extended) :
    stretchEnd size (.ofInt 0) (some position) = stretchStart size position := by
  rw [stretchEnd, stretchStart, Extended.ofInt_zero, zero_add, min_comm]

/-- A stretch from the front whose length is a position ends where the stretch from that
position starts, so that the two make up the text. -/
theorem append_of_isStretch {text front back : List Char} {position : Extended}
    {first past first' past' : ℕ}
    (hfront : IsStretch text (.ofInt 0) (some position) first past front)
    (hback : IsStretch text position none first' past' back) : front ++ back = text := by
  have hzero : first = 0 := by
    have hfirst := hfront.first_eq
    rw [stretchStart, Extended.ofInt_zero, if_neg (lt_irrefl 0), ← Extended.ofInt_zero,
      Extended.ofInt_min, Extended.ofInt_inj] at hfirst
    omega
  subst hzero
  have hmeet : past = first' := by
    have hpast := hfront.past_eq
    rw [Nat.cast_zero, stretchEnd_zero_eq, ← hback.first_eq, Extended.ofInt_inj] at hpast
    exact_mod_cast hpast
  have hlast : past' = text.length := by
    exact_mod_cast Extended.ofInt_inj.mp hback.past_eq
  rw [hfront.part_eq, hback.part_eq, hmeet, hlast, List.take_length, List.drop_zero,
    List.take_append_drop]

namespace Registry

/-- What `substr` gives. -/
structure Substrings (data : Value) : Prop where
  /-- The part is the stretch of the first argument's text that the start and the length
  ask for. -/
  stretch : ∀ {rules args : List Value}, (builtins : Registry Unit).values rules data = .ok args →
    ∃ first past part, answer "substr" rules data = .ok (.text (String.ofList part)) ∧
      IsStretch (Builtin.arg args 0).toText.toList (cut (Builtin.arg args 1).toNumber)
        (args[2]?.map fun v => cut v.toNumber) first past part
  /-- No slice leaves the text. -/
  inRange : ∀ args, Checked.substring? args = some (Builtin.substring args)
  /-- A text is its part up to a position and its part from there. -/
  halves : ∀ {x y a b : Value}, HasValue x data a → HasValue y data b →
    answer "cat" [.object [("substr", .list [x, .number (.int 0), y])],
      .object [("substr", .list [x, y])]] data = .ok (.text a.toText)
  /-- The same, for a text and an integer that stand in the rule. -/
  halves_int : ∀ (text : String) (k : Int64),
    answer "cat" [.object [("substr", .list [.text text, .number (.int 0), .number (.int k)])],
      .object [("substr", .list [.text text, .number (.int k)])]] data = .ok (.text text)

variable {data : Value}

theorem exists_stretch_of_values {rules args : List Value}
    (h : (builtins : Registry Unit).values rules data = .ok args) :
    ∃ first past part, answer "substr" rules data = .ok (.text (String.ofList part)) ∧
      IsStretch (Builtin.arg args 0).toText.toList (cut (Builtin.arg args 1).toNumber)
        (args[2]?.map fun v => cut v.toNumber) first past part := by
  obtain ⟨first, past, hstretch⟩ := exists_isStretch (Builtin.arg args 0).toText.toList
    (Builtin.arg args 1).toNumber (args[2]?.map Value.toNumber)
  rw [Option.map_map, Option.map_map] at hstretch
  have hanswer : answer "substr" rules data = .ok (Builtin.substring args) :=
    result_of_values rfl (fun _ => rfl) h
  exact ⟨first, past, _, hanswer, hstretch⟩

/-- The parts of a text up to a position and from there make up the text. -/
theorem concat_halves {x y a b : Value} (hx : HasValue x data a) (hy : HasValue y data b) :
    answer "cat" [.object [("substr", .list [x, .number (.int 0), y])],
      .object [("substr", .list [x, y])]] data = .ok (.text a.toText) := by
  have hzero : HasValue (.number (.int 0)) data (.number (.int 0)) := rfl
  obtain ⟨first, past, front, hanswer, hfront⟩ :=
    exists_stretch_of_values (values_of_results (.cons hx (.cons hzero (.cons hy .nil))))
  obtain ⟨first', past', back, hanswer', hback⟩ :=
    exists_stretch_of_values (values_of_results (.cons hx (.cons hy .nil)))
  have hposition : cut (Value.number (.int 0)).toNumber = .ofInt 0 :=
    Double.cut_ofInt (i := (0 : Int64).toInt) (by decide)
  have hfront' : IsStretch a.toText.toList (.ofInt 0) (some (cut b.toNumber)) first past front := by
    rw [← hposition]
    exact hfront
  have htext : front ++ back = a.toText.toList := append_of_isStretch hfront' hback
  have hjoin : Builtin.concat [.text (String.ofList front), .text (String.ofList back)] =
      .text a.toText := by
    rw [Builtin.concat, ← String.ofList_toList (s := a.toText), ← htext, String.ofList_append]
    rfl
  rw [← hjoin]
  exact result_of_values rfl (fun _ => rfl) (values_of_results (.cons hanswer (.cons hanswer' .nil)))

/-- Every part of a text is clipped so. -/
theorem substrings (data : Value) : Substrings data where
  stretch := exists_stretch_of_values
  inRange := Checked.substring?_eq
  halves := concat_halves
  halves_int := fun text k => concat_halves (a := .text text) (b := .number (.int k)) rfl rfl

end Registry

end DataRules
