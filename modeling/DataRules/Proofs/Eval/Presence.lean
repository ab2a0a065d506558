import DataRules.Eval.Engine
import DataRules.Proofs.Double.Order
import DataRules.Proofs.Number.Integers

set_option autoImplicit false

/-!
# Presence: what `missing` and `missing_some` say of the keys that `var` reads

A key is lacking when `var` reads null or the empty text for it.  `missing` gives the
lacking keys of a list as they stand there, and `missing_some` gives them too unless
enough of the keys are not lacking.

The count of those is compared as a double.  It is exact up to `2 ^ 53`, which is more keys
than any memory holds; past that it is rounded, and the laws that need it exact say so.
-/

namespace DataRules

open DataRules.Double

namespace Value

variable {data need key : Value} {keys : List Value} {n : Nat}

/-- The data context has nothing under the key. -/
def Lacks (data key : Value) : Prop := data.read [key] = .null ∨ data.read [key] = .text ""

theorem isMissing_iff {v : Value} : v.isMissing = true ↔ v = .null ∨ v = .text "" := by
  cases v <;> simp [isMissing]

instance (data key : Value) : Decidable (data.Lacks key) :=
  decidable_of_iff ((data.read [key]).isMissing = true) isMissing_iff

/-- The number of keys, each counted as often as it occurs, that the data context does not
lack. -/
def present (data : Value) (keys : List Value) : Nat := keys.countP fun key => ¬data.Lacks key

/-- The value is, as a number, at most the count; what is not a number is not. -/
def AtMost (need : Value) (count : Nat) : Prop :=
  ∃ place, place? need.toNumber = some place ∧ place ≤ Line.ofRat count

theorem missingKeys_eq (data : Value) (keys : List Value) :
    data.missingKeys keys = keys.filter fun key => data.Lacks key := by
  refine List.filter_congr fun key _ => ?_
  rw [Bool.eq_iff_iff, decide_eq_true_eq]
  exact isMissing_iff

/-- The keys that are present and those that are missing are all the keys. -/
theorem present_add_length_missingKeys (data : Value) (keys : List Value) :
    data.present keys + (data.missingKeys keys).length = keys.length := by
  rw [missingKeys_eq, ← List.countP_eq_length_filter, present,
    List.length_eq_countP_add_countP (fun key => decide (data.Lacks key)), Nat.add_comm]
  simp

theorem present_le_length (data : Value) (keys : List Value) :
    data.present keys ≤ keys.length := List.countP_le_length

theorem missing_list_eq_nil_iff :
    data.missing [.list keys] = .list [] ↔ ∀ key ∈ keys, ¬data.Lacks key := by
  show Value.list (data.missingKeys keys) = .list [] ↔ _
  rw [Value.list.injEq, missingKeys_eq, List.filter_eq_nil_iff]
  simp

theorem present_eq_length_iff :
    data.present keys = keys.length ↔ data.missing [.list keys] = .list [] := by
  rw [missing_list_eq_nil_iff, present, List.countP_eq_length]
  simp

/-- Nothing is given once the count of the present keys, as a double, reaches what is
asked for. -/
theorem missingSome_list (data need : Value) (keys : List Value) :
    data.missingSome [need, .list keys] =
      if need.toNumber ≤ Float.ofNat (data.present keys) then .list []
      else data.missing [.list keys] := by
  have hcount : keys.length - (data.missingKeys keys).length = data.present keys :=
    Nat.sub_eq_of_eq_add (data.present_add_length_missingKeys keys).symm
  rw [← hcount]
  rfl

theorem toNumber_ofInt (h : IsExact n) : (Value.ofInt n).toNumber = Float.ofNat n := by
  obtain ⟨m, hm⟩ := h.exists_toInt
  have hint : Number.ofInt? n = some (.int m) := Number.ofInt?_eq_some_iff.mpr ⟨m, hm, rfl⟩
  rw [Value.ofInt, hint]
  show Float.ofInt m.toInt = _
  rw [hm]
  rfl

/-- An exact count that is asked for is compared with another as they are. -/
theorem atMost_ofInt_iff {count : Nat} (h : IsExact n) :
    (Value.ofInt n).AtMost count ↔ n ≤ count := by
  rw [AtMost, toNumber_ofInt h, place?_ofNat (n := n) h]
  simp [Line.ofRat_le_ofRat]

/-- What is missing is given when fewer keys than asked for are present. -/
theorem missingSome_of_not_atMost (hexact : IsExact (data.present keys))
    (hfew : ¬need.AtMost (data.present keys)) :
    data.missingSome [need, .list keys] = data.missing [.list keys] := by
  have hcompare : need.toNumber ≤ Float.ofNat (data.present keys) ↔
      need.AtMost (data.present keys) := le_ofNat_iff (n := data.present keys) hexact
  rw [missingSome_list, if_neg (hcompare.not.mpr hfew)]

end Value

namespace Registry

variable {σ : Type}

/-- How the operators that look for keys agree with the one that reads them. -/
structure AgreesOnKeys (registry : Registry σ) (data : Value) : Prop where
  /-- The operators read the data context for the values of their arguments. -/
  operators : ∀ args : List Value,
    (registry.apply (.object [("var", .list args)]) data = do
      return data.read (← Control.evaluateAll (args.map registry.apply) data)) ∧
    (registry.apply (.object [("missing", .list args)]) data = do
      return data.missing (← Control.evaluateAll (args.map registry.apply) data)) ∧
    (registry.apply (.object [("missing_some", .list args)]) data = do
      return data.missingSome (← Control.evaluateAll (args.map registry.apply) data))
  /-- `missing` gives the keys that are lacking, in their order and as often as they occur. -/
  missing : ∀ keys, data.missing [.list keys] = .list (keys.filter fun key => data.Lacks key)
  /-- `missing` gives nothing exactly when no key is lacking. -/
  complete : ∀ keys, data.missing [.list keys] = .list [] ↔ ∀ key ∈ keys, ¬data.Lacks key
  /-- `missing_some` gives nothing or what `missing` gives, whichever the count of the
  present keys, as a double, says. -/
  compared : ∀ need keys, data.missingSome [need, .list keys] =
    if need.toNumber ≤ Float.ofNat (data.present keys) then .list [] else data.missing [.list keys]
  /-- It gives nothing when as many keys as asked for are present. -/
  enough : ∀ {need keys}, need.AtMost (data.present keys) →
    data.missingSome [need, .list keys] = .list []
  /-- It gives the missing keys when fewer are present. -/
  short : ∀ {need keys}, IsExact (data.present keys) → ¬need.AtMost (data.present keys) →
    data.missingSome [need, .list keys] = data.missing [.list keys]
  /-- It gives the missing keys when what is asked for is not a number. -/
  unclear : ∀ {need keys}, need.toNumber.isNaN = true →
    data.missingSome [need, .list keys] = data.missing [.list keys]
  /-- Where it gives nothing, it does so too when less is asked for. -/
  monotone : ∀ {need less keys}, data.missingSome [need, .list keys] = .list [] →
    less.toNumber ≤ need.toNumber → data.missingSome [less, .list keys] = .list []
  /-- When all keys are asked for, it is `missing`. -/
  whole : ∀ {keys : List Value}, IsExact keys.length →
    data.missingSome [.ofInt keys.length, .list keys] = data.missing [.list keys]

/-- The operators agree so over any registry and on any data context. -/
theorem agreesOnKeys (registry : Registry σ) (data : Value) : AgreesOnKeys registry data where
  operators args :=
    ⟨registry.apply_operation "var" (.list args) data,
      registry.apply_operation "missing" (.list args) data,
      registry.apply_operation "missing_some" (.list args) data⟩
  missing keys := congrArg Value.list (data.missingKeys_eq keys)
  complete keys := Value.missing_list_eq_nil_iff
  compared := data.missingSome_list
  enough := by
    intro need keys ⟨place, hplace, hle⟩
    rw [Value.missingSome_list, if_pos (le_ofNat hplace hle)]
  short := Value.missingSome_of_not_atMost
  unclear := by
    intro need keys hnan
    rw [Value.missingSome_list, if_neg (not_le_of_isNaN hnan _)]
  monotone := by
    intro need less keys hneed hle
    rw [Value.missingSome_list] at hneed ⊢
    split at hneed
    · next henough => rw [if_pos (le_trans_of_le hle henough)]
    · rw [hneed, ite_self]
  whole := by
    intro keys hexact
    have hpresent := data.present_le_length keys
    by_cases hall : data.present keys = keys.length
    · rw [Value.missingSome_list, Value.present_eq_length_iff.mp hall, ite_self]
    · have hfew : ¬(Value.ofInt keys.length).AtMost (data.present keys) := by
        rw [Value.atMost_ofInt_iff hexact]
        omega
      exact Value.missingSome_of_not_atMost (Nat.le_trans hpresent hexact) hfew

/-- A key that is given twice counts twice, where it is present and where it is missing. -/
example : (builtins.apply (.object [("missing_some",
      .list [.number (.int 3), .list [.text "a", .text "b", .text "a", .text "b"]])])
    (.object [("a", .bool true)])).run () =
      (⟨.ok (.list [.text "b", .text "b"]), []⟩, ()) := by
  rfl

end Registry

end DataRules
