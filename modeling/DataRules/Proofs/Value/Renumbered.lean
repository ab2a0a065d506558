import DataRules.Proofs.Double.Digits
import DataRules.Value.Equality
import DataRules.Value.Path
import Mathlib.Data.List.Forall2

set_option autoImplicit false

/-!
# Renumbering: integers and doubles as one kind

An integer below `2 ^ 53` in magnitude may be written as the double of that integer,
and the double as the integer.  A value that differs from another in this alone
converts to the same number and to the same text, has the same truth, equals and
orders the same values, and reads data at the same paths.  Past the bound this
fails: `2 ^ 53 + 1` and its double are told apart by another integer.
-/

namespace DataRules

open DataRules.Double

/-! ## Numbers -/

namespace Number

/-- The double is the integer, which is below `2 ^ 53` in magnitude; zero carries no
minus sign. -/
structure IsDoubleOf (x : Float) (n : Int64) : Prop where
  small : n.toInt.natAbs < 2 ^ 53
  whole : whole? x = some n.toInt
  unsigned : x ≠ -0

/-- There is one such double for each integer. -/
theorem IsDoubleOf.eq_ofInt {x : Float} {n : Int64} (h : IsDoubleOf x n) :
    x = Float.ofInt n.toInt :=
  eq_ofInt_of_whole? h.small h.whole h.unsigned

theorem isDoubleOf_ofInt {n : Int64} (hsmall : n.toInt.natAbs < 2 ^ 53) :
    IsDoubleOf (Float.ofInt n.toInt) n :=
  ⟨hsmall, whole?_ofInt hsmall, ofInt_ne_negZero _⟩

/-- The two numbers are the same, or one is an integer below `2 ^ 53` in magnitude and
the other the double that is that integer. -/
inductive Renumbered : Number → Number → Prop where
  | refl (n : Number) : Renumbered n n
  | toFloat {n : Int64} {x : Float} (h : IsDoubleOf x n) : Renumbered (.int n) (.float x)
  | ofFloat {n : Int64} {x : Float} (h : IsDoubleOf x n) : Renumbered (.float x) (.int n)

theorem int_beq_iff {m n : Int64} : (m == n) = decide (m.toInt = n.toInt) := by
  rw [Bool.eq_iff_iff, beq_iff_eq, decide_eq_true_iff, Int64.toInt_inj]

namespace IsDoubleOf

variable {x : Float} {n : Int64}

theorem toFloat_eq (h : IsDoubleOf x n) : (Number.int n).toFloat = (Number.float x).toFloat :=
  h.eq_ofInt.symm

/-- An integer and its double are written alike. -/
theorem text_eq (h : IsDoubleOf x n) : (Number.int n).text = (Number.float x).text := by
  obtain rfl := h.eq_ofInt
  exact congrArg String.ofList (Layout.plain_chars_ofInt h.small).symm

theorem isTruthy_eq (h : IsDoubleOf x n) :
    (Number.int n).isTruthy = (Number.float x).isTruthy := by
  obtain rfl := h.eq_ofInt
  have hzero : isEqual (Float.ofInt n.toInt) 0 = decide (n.toInt = 0) := isEqual_ofInt h.small 0
  have hint : (n == 0) = decide (n.toInt = 0) := int_beq_iff
  rw [isTruthy, isTruthy, isNaN_ofInt h.small, hzero, bne, hint]
  rfl

/-- An integer and its double equal the same numbers. -/
theorem equals_eq (h : IsDoubleOf x n) (k : Number) :
    (Number.int n).equals k = (Number.float x).equals k := by
  obtain rfl := h.eq_ofInt
  cases k with
  | int k =>
      show (n == k) = isEqual (Float.ofInt n.toInt) (Float.ofInt k.toInt)
      rw [isEqual_ofInt h.small, int_beq_iff]
  | float y => rfl

end IsDoubleOf

theorem isEqual_comm (x y : Float) : isEqual x y = isEqual y x := by
  rw [isEqual, isEqual, order?_swap x y]
  cases order? x y with
  | none => rfl
  | some ordering => cases ordering <;> rfl

theorem equals_comm (m n : Number) : m.equals n = n.equals m := by
  cases m with
  | int m =>
      cases n with
      | int n =>
          show (m == n) = (n == m)
          exact BEq.comm
      | float y => exact isEqual_comm _ _
  | float x => cases n <;> exact isEqual_comm _ _

namespace Renumbered

variable {m n : Number}

theorem toFloat_eq (h : Renumbered m n) : m.toFloat = n.toFloat := by
  cases h with
  | refl => rfl
  | toFloat h => exact h.toFloat_eq
  | ofFloat h => exact h.toFloat_eq.symm

theorem text_eq (h : Renumbered m n) : m.text = n.text := by
  cases h with
  | refl => rfl
  | toFloat h => exact h.text_eq
  | ofFloat h => exact h.text_eq.symm

theorem isTruthy_eq (h : Renumbered m n) : m.isTruthy = n.isTruthy := by
  cases h with
  | refl => rfl
  | toFloat h => exact h.isTruthy_eq
  | ofFloat h => exact h.isTruthy_eq.symm

theorem equals_left (h : Renumbered m n) (k : Number) : m.equals k = n.equals k := by
  cases h with
  | refl => rfl
  | toFloat h => exact h.equals_eq k
  | ofFloat h => exact (h.equals_eq k).symm

theorem equals_eq {m' n' : Number} (h : Renumbered m n) (h' : Renumbered m' n') :
    m.equals m' = n.equals n' := by
  rw [h.equals_left m', equals_comm n m', h'.equals_left n, equals_comm n' n]

end Renumbered

end Number

/-! ## Values -/

namespace Value

mutual

/-- The second value is the first one with some integers below `2 ^ 53` in magnitude
written as doubles, or such doubles as integers, at any depth. -/
inductive Renumbered : Value → Value → Prop where
  | null : Renumbered .null .null
  | bool (b : Bool) : Renumbered (.bool b) (.bool b)
  | number {m n : Number} (hnumber : m.Renumbered n) : Renumbered (.number m) (.number n)
  | text (s : String) : Renumbered (.text s) (.text s)
  | list {items items' : List Value} (hitems : RenumberedEach items items') :
      Renumbered (.list items) (.list items')
  | object {fields fields' : List (String × Value)} (hfields : RenumberedFields fields fields') :
      Renumbered (.object fields) (.object fields')

/-- The same for as many values in the one list as in the other. -/
inductive RenumberedEach : List Value → List Value → Prop where
  | nil : RenumberedEach [] []
  | cons {v v' : Value} {vs vs' : List Value} (hvalue : Renumbered v v')
      (hvalues : RenumberedEach vs vs') : RenumberedEach (v :: vs) (v' :: vs')

/-- The same for the fields of two objects, under the same keys. -/
inductive RenumberedFields : List (String × Value) → List (String × Value) → Prop where
  | nil : RenumberedFields [] []
  | cons {key : String} {v v' : Value} {fields fields' : List (String × Value)}
      (hvalue : Renumbered v v') (hfields : RenumberedFields fields fields') :
      RenumberedFields ((key, v) :: fields) ((key, v') :: fields')

end

mutual

theorem Renumbered.refl : (v : Value) → Renumbered v v
  | .null => .null
  | .bool b => .bool b
  | .number n => .number (.refl n)
  | .text s => .text s
  | .list items => .list (RenumberedEach.refl items)
  | .object fields => .object (RenumberedFields.refl fields)

theorem RenumberedEach.refl : (vs : List Value) → RenumberedEach vs vs
  | [] => .nil
  | v :: vs => .cons (Renumbered.refl v) (RenumberedEach.refl vs)

theorem RenumberedFields.refl : (fields : List (String × Value)) → RenumberedFields fields fields
  | [] => .nil
  | (_, v) :: fields => .cons (Renumbered.refl v) (RenumberedFields.refl fields)

end

theorem renumberedEach_iff {vs vs' : List Value} :
    RenumberedEach vs vs' ↔ List.Forall₂ Renumbered vs vs' := by
  induction vs generalizing vs' with
  | nil =>
      constructor
      · rintro ⟨⟩
        exact .nil
      · rintro ⟨⟩
        exact .nil
  | cons v vs ih =>
      constructor
      · rintro ⟨⟩
        next hvalue hvalues => exact .cons hvalue (ih.mp hvalues)
      · rintro ⟨⟩
        next hvalue hvalues => exact .cons hvalue (ih.mpr hvalues)

/-! ## Conversions -/

theorem Renumbered.isNull_eq {v v' : Value} (h : Renumbered v v') : v.isNull = v'.isNull := by
  cases h <;> rfl

theorem Renumbered.isContainer_eq {v v' : Value} (h : Renumbered v v') :
    v.isContainer = v'.isContainer := by
  cases h <;> rfl

theorem Renumbered.isMissing_eq {v v' : Value} (h : Renumbered v v') :
    v.isMissing = v'.isMissing := by
  cases h <;> rfl

theorem Renumbered.isTruthy_eq {v v' : Value} (h : Renumbered v v') :
    v.isTruthy = v'.isTruthy := by
  cases h with
  | number hnumber => exact hnumber.isTruthy_eq
  | list hitems => cases hitems <;> rfl
  | _ => rfl

theorem Renumbered.asList {v v' : Value} (h : Renumbered v v') :
    RenumberedEach v.asList v'.asList := by
  cases h with
  | list hitems => exact hitems
  | null => exact .cons .null .nil
  | bool b => exact .cons (.bool b) .nil
  | number hnumber => exact .cons (.number hnumber) .nil
  | text s => exact .cons (.text s) .nil
  | object hfields => exact .cons (.object hfields) .nil

theorem Renumbered.toNumber_eq : {v v' : Value} → Renumbered v v' → v.toNumber = v'.toNumber
  | _, _, .null => rfl
  | _, _, .bool _ => rfl
  | _, _, .number hnumber => hnumber.toFloat_eq
  | _, _, .text _ => rfl
  | _, _, .list .nil => rfl
  | _, _, .list (.cons hitem .nil) => hitem.toNumber_eq
  | _, _, .list (.cons _ (.cons _ _)) => rfl
  | _, _, .object _ => rfl

theorem inlineText_eq_ite (v : Value) : v.inlineText = if v.isNull then "" else v.toText := by
  cases v <;> rfl

mutual

theorem Renumbered.toText_eq : {v v' : Value} → Renumbered v v' → v.toText = v'.toText
  | _, _, .null => rfl
  | _, _, .bool _ => rfl
  | _, _, .number hnumber => by rw [toText, toText, hnumber.text_eq]
  | _, _, .text _ => rfl
  | _, _, .list hitems => by rw [toText_list, toText_list, hitems.map_inlineText]
  | _, _, .object _ => by rw [toText, toText]

theorem RenumberedEach.map_inlineText : {vs vs' : List Value} → RenumberedEach vs vs' →
    vs.map inlineText = vs'.map inlineText
  | _, _, .nil => rfl
  | _, _, .cons hvalue hvalues => by
      rw [List.map_cons, List.map_cons, inlineText_eq_ite, inlineText_eq_ite, hvalue.isNull_eq,
        hvalue.toText_eq, hvalues.map_inlineText]

end

/-! ## Equality and order -/

mutual

/-- Renumbered values equal renumbered values. -/
theorem Renumbered.equals_eq : {a a' b b' : Value} → Renumbered a a' → Renumbered b b' →
    a.equals b = a'.equals b'
  | _, _, _, _, .null, hb => by cases hb <;> rfl
  | _, _, _, _, .bool _, hb => by cases hb <;> rfl
  | _, _, _, _, .text _, hb => by cases hb <;> rfl
  | _, _, _, _, .number hm, hb => by
      cases hb with
      | number hn => rw [equals, equals, hm.equals_eq hn]
      | _ => rfl
  | _, _, _, _, .list has, hb => by
      cases hb with
      | list hbs => rw [equals, equals, has.equalItems_eq hbs]
      | _ => rfl
  | _, _, _, _, .object has, hb => by
      cases hb with
      | object hbs => rw [equals, equals, has.equalFields_eq hbs]
      | _ => rfl

theorem RenumberedEach.equalItems_eq : {as as' bs bs' : List Value} → RenumberedEach as as' →
    RenumberedEach bs bs' → equalItems as bs = equalItems as' bs'
  | _, _, _, _, .nil, .nil => rfl
  | _, _, _, _, .nil, .cons _ _ => rfl
  | _, _, _, _, .cons _ _, .nil => rfl
  | _, _, _, _, .cons ha has, .cons hb hbs => by
      rw [equalItems, equalItems, ha.equals_eq hb, has.equalItems_eq hbs]

theorem RenumberedFields.equalFields_eq : {as as' bs bs' : List (String × Value)} →
    RenumberedFields as as' → RenumberedFields bs bs' → equalFields as bs = equalFields as' bs'
  | _, _, _, _, .nil, .nil => rfl
  | _, _, _, _, .nil, .cons _ _ => rfl
  | _, _, _, _, .cons _ _, .nil => rfl
  | _, _, _, _, .cons ha has, .cons hb hbs => by
      rw [equalFields, equalFields, ha.equals_eq hb, has.equalFields_eq hbs]

end

theorem Renumbered.unBoolean {v v' : Value} (h : Renumbered v v') :
    Renumbered v.unBoolean v'.unBoolean := by
  cases h with
  | bool b => exact Renumbered.refl _
  | null => exact .null
  | number hnumber => exact .number hnumber
  | text s => exact .text s
  | list hitems => exact .list hitems
  | object hfields => exact .object hfields

theorem Renumbered.primitive {v v' : Value} (h : Renumbered v v') :
    Renumbered v.primitive v'.primitive := by
  rw [Value.primitive, Value.primitive, h.isContainer_eq, h.toText_eq]
  split
  · exact .text _
  · exact h

theorem Renumbered.scalarsMatch_eq {a a' b b' : Value} (ha : Renumbered a a')
    (hb : Renumbered b b') : scalarsMatch a b = scalarsMatch a' b' := by
  have hnumbers : isEqual a.toNumber b.toNumber = isEqual a'.toNumber b'.toNumber := by
    rw [ha.toNumber_eq, hb.toNumber_eq]
  cases ha with
  | text s =>
      cases hb with
      | text t => rfl
      | _ => exact hnumbers
  | number hm =>
      cases hb with
      | number hn => exact hm.equals_eq hn
      | _ => exact hnumbers
  | _ => exact hnumbers

/-- Renumbered values are loosely equal to renumbered values. -/
theorem Renumbered.looselyEquals_eq {a a' b b' : Value} (ha : Renumbered a a')
    (hb : Renumbered b b') : a.looselyEquals b = a'.looselyEquals b' := by
  rw [looselyEquals, looselyEquals, ha.isNull_eq, hb.isNull_eq, ha.isContainer_eq,
    hb.isContainer_eq, ha.equals_eq hb,
    ha.unBoolean.primitive.scalarsMatch_eq hb.unBoolean.primitive]

/-- Renumbered values are ordered like renumbered values. -/
theorem Renumbered.order?_eq {a a' b b' : Value} (ha : Renumbered a a') (hb : Renumbered b b') :
    a.order? b = a'.order? b' := by
  have hleft := ha.primitive
  have hright := hb.primitive
  have hnumbers : Double.order? a.primitive.toNumber b.primitive.toNumber =
      Double.order? a'.primitive.toNumber b'.primitive.toNumber := by
    rw [hleft.toNumber_eq, hright.toNumber_eq]
  unfold order?
  generalize a.primitive = p, a'.primitive = p' at hleft hnumbers
  generalize b.primitive = q, b'.primitive = q' at hright hnumbers
  cases hleft with
  | text s =>
      cases hright with
      | text t => rfl
      | _ => exact hnumbers
  | _ => exact hnumbers

/-! ## Reading data -/

theorem Renumbered.getD {o o' : Option Value} (h : Option.Rel Renumbered o o') {v v' : Value}
    (hdefault : Renumbered v v') : Renumbered (o.getD v) (o'.getD v') := by
  cases h with
  | some hvalue => exact hvalue
  | none => exact hdefault

theorem RenumberedEach.getElem? : {vs vs' : List Value} → RenumberedEach vs vs' → (i : Nat) →
    Option.Rel Renumbered vs[i]? vs'[i]?
  | _, _, .nil, _ => .none
  | _, _, .cons hvalue _, 0 => .some hvalue
  | _, _, .cons _ hvalues, i + 1 => hvalues.getElem? i

/-- An argument, null where there is none. -/
theorem RenumberedEach.getD {vs vs' : List Value} (h : RenumberedEach vs vs') (i : Nat) :
    Renumbered (vs.getD i .null) (vs'.getD i .null) := by
  rw [List.getD_eq_getElem?_getD, List.getD_eq_getElem?_getD]
  exact Renumbered.getD (h.getElem? i) .null

theorem RenumberedFields.lookup (key : String) : {fields fields' : List (String × Value)} →
    RenumberedFields fields fields' →
    Option.Rel Renumbered (Table.lookup key fields) (Table.lookup key fields')
  | _, _, .nil => .none
  | _, _, .cons hvalue hfields => by
      rw [Table.lookup_cons, Table.lookup_cons]
      split
      · exact .some hvalue
      · exact hfields.lookup key

theorem Renumbered.child? {v v' : Value} (h : Renumbered v v') (segment : String) :
    Option.Rel Renumbered (v.child? segment) (v'.child? segment) := by
  cases h with
  | object hfields => exact hfields.lookup segment
  | list hitems =>
      rw [Value.child?, Value.child?]
      cases Path.index? segment with
      | none => exact .none
      | some i => exact hitems.getElem? i
  | _ => exact .none

theorem Renumbered.follow? {v v' : Value} (h : Renumbered v v') (segments : List String) :
    Option.Rel Renumbered (v.follow? segments) (v'.follow? segments) := by
  induction segments generalizing v v' with
  | nil => exact .some h
  | cons segment segments ih =>
      rw [Value.follow?, Value.follow?]
      generalize v.child? segment = part, v'.child? segment = part', h.child? segment = hpart
      cases hpart with
      | none => exact .none
      | some hpart => exact ih hpart

/-- Renumbered data is renumbered at each path. -/
theorem Renumbered.at? {v v' : Value} (h : Renumbered v v') (path : String) :
    Option.Rel Renumbered (v.at? path) (v'.at? path) := by
  rw [Value.at?, Value.at?]
  split
  · exact .some h
  · exact h.follow? _

theorem read_eq_ite (data : Value) (args : List Value) :
    data.read args = if (args.getD 0 .null).isNull then data
      else (data.at? (args.getD 0 .null).toText).getD (args.getD 1 .null) := by
  have hhead : args.headD .null = args.getD 0 .null := by cases args <;> rfl
  rw [read, hhead]
  cases args.getD 0 .null <;> rfl

theorem Renumbered.read {data data' : Value} (hdata : Renumbered data data')
    {args args' : List Value} (hargs : RenumberedEach args args') :
    Renumbered (data.read args) (data'.read args') := by
  rw [read_eq_ite, read_eq_ite, (hargs.getD 0).isNull_eq, (hargs.getD 0).toText_eq]
  split
  · exact hdata
  · exact Renumbered.getD (hdata.at? _) (hargs.getD 1)

theorem Renumbered.missingKeys {data data' : Value} (hdata : Renumbered data data') :
    {keys keys' : List Value} → RenumberedEach keys keys' →
    RenumberedEach (data.missingKeys keys) (data'.missingKeys keys')
  | _, _, .nil => .nil
  | _, _, .cons hkey hkeys => by
      have hmissing := (hdata.read (.cons hkey .nil)).isMissing_eq
      have hrest := hdata.missingKeys hkeys
      simp only [Value.missingKeys, List.filter_cons, hmissing] at hrest ⊢
      split
      · exact .cons hkey hrest
      · exact hrest

theorem Renumbered.missing {data data' : Value} (hdata : Renumbered data data')
    {args args' : List Value} (hargs : RenumberedEach args args') :
    Renumbered (data.missing args) (data'.missing args') := by
  have hall := hdata.missingKeys hargs
  cases hargs with
  | nil => exact .list hall
  | cons hfirst _ =>
      cases hfirst with
      | list hkeys => exact .list (hdata.missingKeys hkeys)
      | _ => exact .list hall

theorem RenumberedEach.length_eq : {vs vs' : List Value} → RenumberedEach vs vs' →
    vs.length = vs'.length
  | _, _, .nil => rfl
  | _, _, .cons _ hvalues => congrArg Nat.succ hvalues.length_eq

theorem RenumberedEach.optionalKeys {args args' : List Value} (hargs : RenumberedEach args args') :
    RenumberedEach (optionalKeys args) (optionalKeys args') := by
  cases hargs with
  | nil => exact .nil
  | cons _ hrest =>
      cases hrest with
      | nil => exact .nil
      | cons hsecond _ =>
          have hkeys := hsecond.asList
          cases hsecond <;> exact hkeys

theorem Renumbered.missingSome {data data' : Value} (hdata : Renumbered data data')
    {args args' : List Value} (hargs : RenumberedEach args args') :
    Renumbered (data.missingSome args) (data'.missingSome args') := by
  have habsent := hdata.missingKeys hargs.optionalKeys
  have hcount : (args.headD .null).toNumber = (args'.headD .null).toNumber := by
    cases hargs with
    | nil => rfl
    | cons hfirst _ => exact hfirst.toNumber_eq
  rw [Value.missingSome, Value.missingSome]
  simp only [hcount, hargs.optionalKeys.length_eq, habsent.length_eq]
  split
  · exact .list .nil
  · exact .list habsent

end Value

end DataRules
