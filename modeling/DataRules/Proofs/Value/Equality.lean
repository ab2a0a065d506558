import DataRules.Proofs.Value.Agreement

set_option autoImplicit false

/-!
# Equality: the laws of the two equalities and of the order

Both equalities are symmetric, and a value equals itself when there is no NaN in it.
Loose equality holds wherever equality does, and on two values of one kind it is
equality.  Exchanging the two sides of an order reverses it.

Equality is transitive but for one exception.  An integer and a double are compared as
doubles, two integers exactly; so a double can equal two integers that blur, which
are not equal to each other.  `Value.BlursWithin` says that this happens somewhere
in two values.
-/

namespace DataRules

open DataRules.Double

namespace Double

/-- A double equals itself unless it is NaN. -/
theorem isEqual_self (x : Float) : isEqual x x = !x.isNaN := by
  cases hnan : x.isNaN with
  | false => rw [isEqual, order?_self hnan]; rfl
  | true => rw [isEqual, order?_eq_none_iff.mpr (.inl hnan)]; rfl

theorem isEqual_trans {x y z : Float} (hxy : isEqual x y = true) (hyz : isEqual y z = true) :
    isEqual x z = true :=
  PartialEquivBEq.trans (α := Float) hxy hyz

end Double

namespace Number

/-- The number is the double NaN. -/
def isNaN : Number → Bool
  | .int _ => false
  | .float x => x.isNaN

theorem equals_self (n : Number) : n.equals n = !n.isNaN := by
  cases n with
  | int n => exact beq_self_eq_true n
  | float x => exact isEqual_self x

/-- Numbers that both equal a third one are equal unless they blur. -/
theorem equals_trans_iff {k m n : Number} (hkm : k.equals m = true) (hmn : m.equals n = true) :
    k.equals n = true ↔ ¬k.Blurs n := by
  have hsame : isEqual k.toFloat n.toFloat = true :=
    isEqual_trans (beq_iff_eq.mpr (equals_iff.mp hkm).1) (beq_iff_eq.mpr (equals_iff.mp hmn).1)
  rw [equals_iff]
  exact and_iff_right (beq_iff_eq.mp hsame)

end Number

namespace Value

/-! ## Symmetry -/

mutual

theorem equals_comm : (a b : Value) → a.equals b = b.equals a
  | .null, b => by cases b <;> rfl
  | .bool p, b => by
      cases b with
      | bool q => exact BEq.comm
      | _ => rfl
  | .number m, b => by
      cases b with
      | number n => exact Number.equals_comm m n
      | _ => rfl
  | .text s, b => by
      cases b with
      | text t => exact BEq.comm
      | _ => rfl
  | .list as, b => by
      cases b with
      | list bs => exact equalItems_comm as bs
      | _ => rfl
  | .object as, b => by
      cases b with
      | object bs => exact equalFields_comm as bs
      | _ => rfl

theorem equalItems_comm : (as bs : List Value) → equalItems as bs = equalItems bs as
  | [], bs => by cases bs <;> rfl
  | _ :: _, [] => rfl
  | a :: as, b :: bs => by
      rw [equalItems, equalItems, equals_comm a b, equalItems_comm as bs]

theorem equalFields_comm : (as bs : List (String × Value)) → equalFields as bs = equalFields bs as
  | [], bs => by cases bs <;> rfl
  | _ :: _, [] => rfl
  | (k, a) :: as, (l, b) :: bs => by
      have hkeys : (k == l) = (l == k) := BEq.comm
      rw [equalFields, equalFields, hkeys, equals_comm a b, equalFields_comm as bs]

end

theorem scalarsMatch_comm (a b : Value) : scalarsMatch a b = scalarsMatch b a := by
  have hnumbers : isEqual a.toNumber b.toNumber = isEqual b.toNumber a.toNumber :=
    Number.isEqual_comm _ _
  cases a with
  | text s =>
      cases b with
      | text t => exact BEq.comm
      | _ => exact hnumbers
  | number m =>
      cases b with
      | number n => exact Number.equals_comm m n
      | _ => exact hnumbers
  | _ => cases b <;> exact hnumbers

theorem looselyEquals_comm (a b : Value) : a.looselyEquals b = b.looselyEquals a := by
  rw [looselyEquals, looselyEquals, Bool.or_comm, Bool.and_comm a.isNull,
    Bool.and_comm a.isContainer, equals_comm a b, scalarsMatch_comm]

/-- Exchanging the two values reverses their order. -/
theorem order?_swap (a b : Value) : b.order? a = (a.order? b).map Ordering.swap := by
  have hnumbers := Double.order?_swap a.primitive.toNumber b.primitive.toNumber
  unfold order?
  generalize a.primitive = p at hnumbers ⊢
  generalize b.primitive = q at hnumbers ⊢
  cases p with
  | text s =>
      cases q with
      | text t => exact congrArg some Std.OrientedOrd.eq_swap
      | _ => exact hnumbers
  | _ => cases q <;> exact hnumbers

/-! ## A value and itself -/

mutual

/-- NaN occurs in the value, at whatever depth. -/
def holdsNaN : Value → Bool
  | .number n => n.isNaN
  | .list items => itemsHoldNaN items
  | .object fields => fieldsHoldNaN fields
  | _ => false

/-- NaN occurs in one of the items. -/
def itemsHoldNaN : List Value → Bool
  | [] => false
  | item :: items => item.holdsNaN || itemsHoldNaN items

/-- NaN occurs in the value of one of the fields. -/
def fieldsHoldNaN : List (String × Value) → Bool
  | [] => false
  | (_, v) :: fields => v.holdsNaN || fieldsHoldNaN fields

end

mutual

/-- A value equals itself when there is no NaN in it. -/
theorem equals_self : (v : Value) → v.equals v = !v.holdsNaN
  | .null => rfl
  | .bool b => beq_self_eq_true b
  | .number n => Number.equals_self n
  | .text s => beq_self_eq_true s
  | .list items => equalItems_self items
  | .object fields => equalFields_self fields

theorem equalItems_self : (items : List Value) → equalItems items items = !itemsHoldNaN items
  | [] => rfl
  | item :: items => by
      rw [equalItems, itemsHoldNaN, equals_self item, equalItems_self items, Bool.not_or]

theorem equalFields_self : (fields : List (String × Value)) →
    equalFields fields fields = !fieldsHoldNaN fields
  | [] => rfl
  | (k, v) :: fields => by
      rw [equalFields, fieldsHoldNaN, equals_self v, equalFields_self fields, beq_self_eq_true,
        Bool.true_and, Bool.not_or]

end

/-! ## The two equalities -/

/-- The kinds between which loose equality converts; lists and objects are one kind. -/
inductive Kind where
  | null
  | boolean
  | number
  | text
  | container
  deriving DecidableEq, Repr

/-- The kind of a value. -/
def kind : Value → Kind
  | .null => .null
  | .bool _ => .boolean
  | .number _ => .number
  | .text _ => .text
  | .list _ => .container
  | .object _ => .container

/-- Equal values are of one kind. -/
theorem kind_eq_of_equals {a b : Value} (h : a.equals b = true) : a.kind = b.kind := by
  cases a <;> cases b <;> first | rfl | cases h

/-- Two booleans count as the same number when they are the same. -/
theorem one_or_zero_beq (p q : Bool) :
    ((if p then 1 else 0 : Int64) == if q then 1 else 0) = (p == q) := by
  cases p <;> cases q <;> decide

/-- On two values of one kind loose equality converts nothing. -/
theorem looselyEquals_eq_equals {a b : Value} (h : a.kind = b.kind) :
    a.looselyEquals b = a.equals b := by
  cases a with
  | null => cases b <;> rfl
  | bool p =>
      cases b with
      | bool q => exact one_or_zero_beq p q
      | _ => cases h
  | number m => cases b <;> first | rfl | cases h
  | text s => cases b <;> first | rfl | cases h
  | list as => cases b <;> first | rfl | cases h
  | object as => cases b <;> first | rfl | cases h

theorem looselyEquals_of_equals {a b : Value} (h : a.equals b = true) :
    a.looselyEquals b = true := by
  rwa [looselyEquals_eq_equals (kind_eq_of_equals h)]

/-! ## Objects by their keys -/

/-- Each field of the one object has an equal field under its key in the other. -/
def FieldsIn (as bs : List (String × Value)) : Prop :=
  ∀ entry ∈ as, ∃ b, Table.lookup entry.1 bs = some b ∧ entry.2.equals b = true

/-- A field under a smaller key is not among those looked up. -/
theorem fieldsIn_cons_iff {as bs : List (String × Value)} {k : String} {b : Value}
    (hsmaller : ∀ entry ∈ as, k < entry.1) : FieldsIn as ((k, b) :: bs) ↔ FieldsIn as bs := by
  refine forall₂_congr fun entry hentry => ?_
  rw [Table.lookup_cons, if_neg (String.ne_of_lt (hsmaller entry hentry))]

theorem FieldsIn.keys_subset {as bs : List (String × Value)} (h : FieldsIn as bs) :
    as.map Prod.fst ⊆ bs.map Prod.fst := by
  intro key hkey
  obtain ⟨entry, hentry, rfl⟩ := List.mem_map.mp hkey
  obtain ⟨b, hlookup, -⟩ := h entry hentry
  exact List.mem_map.mpr ⟨(entry.1, b), Table.mem_of_lookup_eq_some hlookup, rfl⟩

theorem nodup_keys {as : List (String × Value)} (has : Table.Ascending as) :
    (as.map Prod.fst).Nodup :=
  List.pairwise_map.mpr (List.Pairwise.imp String.ne_of_lt has)

/-- Of two objects with as many fields, whose keys ascend, neither has a first key that
the other lacks: the keys left over would be too few. -/
theorem key_eq_of_fieldsIn {as bs : List (String × Value)} {k l : String} {a b : Value}
    (has : Table.Ascending ((k, a) :: as)) (hbs : Table.Ascending ((l, b) :: bs))
    (hlength : as.length + 1 = bs.length + 1) (hfields : FieldsIn ((k, a) :: as) ((l, b) :: bs)) :
    k = l := by
  by_contra hne
  have hkeys := hfields.keys_subset
  have hlater : k ∈ bs.map Prod.fst :=
    (List.mem_cons.mp (hkeys List.mem_cons_self)).resolve_left hne
  obtain ⟨entry, hentry, rfl⟩ := List.mem_map.mp hlater
  have hsmaller : l < entry.1 := (List.pairwise_cons.mp hbs).1 entry hentry
  have hrest : ((entry.1, a) :: as).map Prod.fst ⊆ bs.map Prod.fst := by
    intro key hkey
    refine (List.mem_cons.mp (hkeys hkey)).resolve_left ?_
    rintro rfl
    rcases List.mem_cons.mp hkey with heq | htail
    · exact hne heq.symm
    · obtain ⟨other, hother, hsame⟩ := List.mem_map.mp htail
      have hgreater := (List.pairwise_cons.mp has).1 other hother
      rw [hsame] at hgreater
      exact String.lt_irrefl _ (String.lt_trans hgreater hsmaller)
  have hle := (List.subperm_of_subset (nodup_keys has) hrest).length_le
  simp only [List.map_cons, List.length_cons, List.length_map] at hle
  omega

/-- Objects with ascending keys are equal when they have as many fields and each field
of the one has an equal field under its key in the other. -/
theorem equalFields_iff_lookup : {as bs : List (String × Value)} → Table.Ascending as →
    Table.Ascending bs → (equalFields as bs = true ↔ as.length = bs.length ∧ FieldsIn as bs)
  | [], [], _, _ => by simp [equalFields, FieldsIn]
  | [], _ :: _, _, _ => by simp [equalFields]
  | _ :: _, [], _, _ => by simp [equalFields]
  | (k, a) :: as, (l, b) :: bs, has, hbs => by
      obtain ⟨hfirst, hrest⟩ := List.pairwise_cons.mp has
      have ih := equalFields_iff_lookup hrest (List.pairwise_cons.mp hbs).2
      rw [equalFields, Bool.and_eq_true, Bool.and_eq_true, beq_iff_eq, ih, List.length_cons,
        List.length_cons, Nat.add_right_cancel_iff]
      constructor
      · rintro ⟨⟨rfl, hequal⟩, hlength, hfields⟩
        refine ⟨hlength, List.forall_mem_cons.mpr ⟨⟨b, Table.lookup_cons_self _ _ _, hequal⟩, ?_⟩⟩
        exact (fieldsIn_cons_iff hfirst).mpr hfields
      · rintro ⟨hlength, hfields⟩
        obtain rfl : k = l := key_eq_of_fieldsIn has hbs (congrArg Nat.succ hlength) hfields
        obtain ⟨⟨c, hlookup, hequal⟩, htail⟩ := List.forall_mem_cons.mp hfields
        obtain rfl : b = c := Option.some.inj ((Table.lookup_cons_self k b bs).symm.trans hlookup)
        exact ⟨⟨rfl, hequal⟩, hlength, (fieldsIn_cons_iff hfirst).mp htail⟩

/-! ## Chains of equal values -/

mutual

/-- Somewhere in the two values, at one position of both, there are integers that
blur. -/
inductive BlursWithin : Value → Value → Prop where
  | number {m n : Number} (hnumber : m.Blurs n) : BlursWithin (.number m) (.number n)
  | list {as bs : List Value} (hitems : BlursAmong as bs) : BlursWithin (.list as) (.list bs)
  | object {as bs : List (String × Value)} (hfields : BlursUnder as bs) :
      BlursWithin (.object as) (.object bs)

/-- The same for the items of two lists. -/
inductive BlursAmong : List Value → List Value → Prop where
  | head {a b : Value} {as bs : List Value} (hitem : BlursWithin a b) :
      BlursAmong (a :: as) (b :: bs)
  | tail {a b : Value} {as bs : List Value} (hitems : BlursAmong as bs) :
      BlursAmong (a :: as) (b :: bs)

/-- The same for the fields of two objects. -/
inductive BlursUnder : List (String × Value) → List (String × Value) → Prop where
  | head {k l : String} {a b : Value} {as bs : List (String × Value)} (hfield : BlursWithin a b) :
      BlursUnder ((k, a) :: as) ((l, b) :: bs)
  | tail {k l : String} {a b : Value} {as bs : List (String × Value)}
      (hfields : BlursUnder as bs) : BlursUnder ((k, a) :: as) ((l, b) :: bs)

end

theorem blursWithin_number_iff {m n : Number} :
    BlursWithin (.number m) (.number n) ↔ m.Blurs n :=
  ⟨fun h => by cases h; assumption, .number⟩

theorem blursWithin_list_iff {as bs : List Value} :
    BlursWithin (.list as) (.list bs) ↔ BlursAmong as bs :=
  ⟨fun h => by cases h; assumption, .list⟩

theorem blursWithin_object_iff {as bs : List (String × Value)} :
    BlursWithin (.object as) (.object bs) ↔ BlursUnder as bs :=
  ⟨fun h => by cases h; assumption, .object⟩

theorem blursAmong_cons_iff {a b : Value} {as bs : List Value} :
    BlursAmong (a :: as) (b :: bs) ↔ BlursWithin a b ∨ BlursAmong as bs := by
  constructor
  · intro h
    cases h with
    | head hitem => exact .inl hitem
    | tail hitems => exact .inr hitems
  · rintro (hitem | hitems)
    · exact .head hitem
    · exact .tail hitems

theorem blursUnder_cons_iff {k l : String} {a b : Value} {as bs : List (String × Value)} :
    BlursUnder ((k, a) :: as) ((l, b) :: bs) ↔ BlursWithin a b ∨ BlursUnder as bs := by
  constructor
  · intro h
    cases h with
    | head hfield => exact .inl hfield
    | tail hfields => exact .inr hfields
  · rintro (hfield | hfields)
    · exact .head hfield
    · exact .tail hfields

mutual

/-- Values that both equal a third one are equal, unless integers in them blur. -/
theorem equals_iff_of_chain : {a b c : Value} → a.equals b = true → b.equals c = true →
    (a.equals c = true ↔ ¬BlursWithin a c)
  | .number k, .number m, .number n, hab, hbc => by
      rw [blursWithin_number_iff]
      exact Number.equals_trans_iff hab hbc
  | .list as, .list bs, .list cs, hab, hbc => by
      rw [blursWithin_list_iff]
      exact equalItems_iff_of_chain hab hbc
  | .object as, .object bs, .object cs, hab, hbc => by
      rw [blursWithin_object_iff]
      exact equalFields_iff_of_chain hab hbc
  | .null, .null, .null, _, _ => ⟨fun _ => nofun, fun _ => rfl⟩
  | .bool _, .bool _, .bool _, hab, hbc =>
      ⟨fun _ => nofun, fun _ => PartialEquivBEq.trans (α := Bool) hab hbc⟩
  | .text _, .text _, .text _, hab, hbc =>
      ⟨fun _ => nofun, fun _ => PartialEquivBEq.trans (α := String) hab hbc⟩

theorem equalItems_iff_of_chain : {as bs cs : List Value} → equalItems as bs = true →
    equalItems bs cs = true → (equalItems as cs = true ↔ ¬BlursAmong as cs)
  | [], [], [], _, _ => ⟨fun _ => nofun, fun _ => rfl⟩
  | a :: as, b :: bs, c :: cs, hab, hbc => by
      rw [equalItems, Bool.and_eq_true] at hab hbc
      rw [equalItems, Bool.and_eq_true, equals_iff_of_chain hab.1 hbc.1,
        equalItems_iff_of_chain hab.2 hbc.2, blursAmong_cons_iff, not_or]

theorem equalFields_iff_of_chain : {as bs cs : List (String × Value)} → equalFields as bs = true →
    equalFields bs cs = true → (equalFields as cs = true ↔ ¬BlursUnder as cs)
  | [], [], [], _, _ => ⟨fun _ => nofun, fun _ => rfl⟩
  | (k, a) :: as, (l, b) :: bs, (m, c) :: cs, hab, hbc => by
      rw [equalFields, Bool.and_eq_true, Bool.and_eq_true, beq_iff_eq] at hab hbc
      obtain ⟨⟨rfl, hab⟩, habs⟩ := hab
      obtain ⟨⟨rfl, hbc⟩, hbcs⟩ := hbc
      rw [equalFields, beq_self_eq_true, Bool.true_and, Bool.and_eq_true,
        equals_iff_of_chain hab hbc, equalFields_iff_of_chain habs hbcs, blursUnder_cons_iff, not_or]

end

mutual

/-- Every integer in the value is below `2 ^ 53` in magnitude. -/
def isExact : Value → Bool
  | .number (.int n) => n.toInt.natAbs < 2 ^ 53
  | .list items => itemsAreExact items
  | .object fields => fieldsAreExact fields
  | _ => true

/-- Every integer in the items is below `2 ^ 53` in magnitude. -/
def itemsAreExact : List Value → Bool
  | [] => true
  | item :: items => item.isExact && itemsAreExact items

/-- Every integer in the fields is below `2 ^ 53` in magnitude. -/
def fieldsAreExact : List (String × Value) → Bool
  | [] => true
  | (_, v) :: fields => v.isExact && fieldsAreExact fields

end

mutual

theorem not_blursWithin_of_isExact : {a b : Value} → a.isExact = true → ¬BlursWithin a b
  | .number (.int _), _, h, .number hnumber =>
      Number.not_blurs_of_lt (of_decide_eq_true h) _ hnumber
  | .number (.float _), _, _, .number hnumber => by
      obtain ⟨i, j, hm, -⟩ := hnumber
      cases hm
  | .list _, _, h, .list hitems => not_blursAmong_of_itemsAreExact h hitems
  | .object _, _, h, .object hfields => not_blursUnder_of_fieldsAreExact h hfields

theorem not_blursAmong_of_itemsAreExact : {as bs : List Value} → itemsAreExact as = true →
    ¬BlursAmong as bs
  | _ :: _, _, h, .head hitem => not_blursWithin_of_isExact (Bool.and_eq_true_iff.mp h).1 hitem
  | _ :: _, _, h, .tail hitems =>
      not_blursAmong_of_itemsAreExact (Bool.and_eq_true_iff.mp h).2 hitems

theorem not_blursUnder_of_fieldsAreExact : {as bs : List (String × Value)} →
    fieldsAreExact as = true → ¬BlursUnder as bs
  | (_, _) :: _, _, h, .head hfield =>
      not_blursWithin_of_isExact (Bool.and_eq_true_iff.mp h).1 hfield
  | (_, _) :: _, _, h, .tail hfields =>
      not_blursUnder_of_fieldsAreExact (Bool.and_eq_true_iff.mp h).2 hfields

end

/-- Equality is transitive unless integers in the outer two values blur, and so whenever
the integers in one of them are all below `2 ^ 53` in magnitude. -/
theorem equals_trans {a b c : Value} (hab : a.equals b = true) (hbc : b.equals c = true) :
    (a.equals c = true ↔ ¬BlursWithin a c) ∧
      (a.isExact = true ∨ c.isExact = true → a.equals c = true) := by
  refine ⟨equals_iff_of_chain hab hbc, ?_⟩
  rintro (ha | hc)
  · exact (equals_iff_of_chain hab hbc).mpr (not_blursWithin_of_isExact ha)
  · rw [equals_comm] at hab hbc ⊢
    exact (equals_iff_of_chain hbc hab).mpr (not_blursWithin_of_isExact hc)

/-- A list in an object equals the same list with a double and with the integer again. -/
theorem equals_trans_prices :
    let prices (n : Number) := Value.object [("prices", .list [.number n, .text "EUR"])]
    (prices (.int 12)).equals (prices (.float 12)) = true ∧
      (prices (.float 12)).equals (prices (.int 12)) = true ∧
      (prices (.int 12)).equals (prices (.int 12)) = true := by
  intro prices
  have hthere : (prices (.int 12)).equals (prices (.float 12)) = true := by decide +kernel
  have hback : (prices (.float 12)).equals (prices (.int 12)) = true := by decide +kernel
  exact ⟨hthere, hback, (equals_trans hthere hback).2 (.inl (by decide +kernel))⟩

/-- Past the bound a double stands between two integers: `2 ^ 53` as a double equals the
integers `2 ^ 53` and `2 ^ 53 + 1`. -/
theorem equals_not_transitive :
    ¬∀ a b c : Value, a.equals b = true → b.equals c = true → a.equals c = true := by
  intro htrans
  have hequal := htrans (.number (.int 9007199254740992)) (.number (.float 9007199254740992))
    (.number (.int 9007199254740993)) (by decide +kernel) (by decide +kernel)
  exact absurd hequal (by decide +kernel)

end Value

end DataRules
