import DataRules.Json.Basic

set_option autoImplicit false

/-!
# Conversion: values as documents

A document has no number that is not finite.  A value that is made a document and back has
lost its infinities and its NaN, wherever in its lists and objects they were, and it has null
in their places; nothing else has changed, integers staying integers and doubles doubles.  So
the values that come back as they were are those in which every number is finite.
-/

namespace DataRules

namespace Value

mutual

/-- The value with null in the place of each double that is not finite. -/
def nullified : Value → Value
  | .number (.float x) => if x.isFinite then .number (.float x) else .null
  | .list items => .list (nullifiedItems items)
  | .object fields => .object (nullifiedFields fields)
  | v => v

/-- So in each item of a list. -/
def nullifiedItems : List Value → List Value
  | [] => []
  | item :: items => item.nullified :: nullifiedItems items

/-- So in each field of an object. -/
def nullifiedFields : List (String × Value) → List (String × Value)
  | [] => []
  | (key, field) :: fields => (key, field.nullified) :: nullifiedFields fields

end

/-- Every number in the value is finite, at whatever depth it stands. -/
inductive IsFinite : Value → Prop where
  | null : IsFinite .null
  | bool (b : Bool) : IsFinite (.bool b)
  | number {n : Number} (hn : n.isFinite = true) : IsFinite (.number n)
  | text (s : String) : IsFinite (.text s)
  | list {items : List Value} (hitems : ∀ item ∈ items, IsFinite item) : IsFinite (.list items)
  | object {fields : List (String × Value)} (hfields : ∀ field ∈ fields, IsFinite field.2) :
      IsFinite (.object fields)

theorem isFinite_number_iff {n : Number} :
    (Value.number n).IsFinite ↔ n.isFinite = true := by
  constructor
  · rintro ⟨⟩
    assumption
  · exact .number

theorem isFinite_list_iff {items : List Value} :
    (Value.list items).IsFinite ↔ ∀ item ∈ items, item.IsFinite := by
  constructor
  · rintro ⟨⟩
    assumption
  · exact .list

theorem isFinite_object_iff {fields : List (String × Value)} :
    (Value.object fields).IsFinite ↔ ∀ field ∈ fields, field.2.IsFinite := by
  constructor
  · rintro ⟨⟩
    assumption
  · exact .object

mutual

/-- Nothing changes in the values whose numbers are all finite, and in no others. -/
theorem nullified_eq_self_iff : (v : Value) → (v.nullified = v ↔ v.IsFinite)
  | .null => iff_of_true rfl .null
  | .bool b => iff_of_true rfl (.bool b)
  | .text s => iff_of_true rfl (.text s)
  | .number (.int n) => iff_of_true rfl (.number rfl)
  | .number (.float x) => by
      rw [isFinite_number_iff, nullified, Number.isFinite]
      split
      · next hx => exact iff_of_true rfl hx
      · next hx => exact iff_of_false (fun h => by cases h) hx
  | .list items => by
      rw [isFinite_list_iff, nullified, Value.list.injEq, nullifiedItems_eq_self_iff items]
  | .object fields => by
      rw [isFinite_object_iff, nullified, Value.object.injEq, nullifiedFields_eq_self_iff fields]

theorem nullifiedItems_eq_self_iff :
    (items : List Value) → (nullifiedItems items = items ↔ ∀ item ∈ items, item.IsFinite)
  | [] => iff_of_true rfl fun _ h => absurd h List.not_mem_nil
  | item :: items => by
      rw [nullifiedItems, List.cons.injEq, nullified_eq_self_iff item,
        nullifiedItems_eq_self_iff items, List.forall_mem_cons]

theorem nullifiedFields_eq_self_iff :
    (fields : List (String × Value)) →
      (nullifiedFields fields = fields ↔ ∀ field ∈ fields, field.2.IsFinite)
  | [] => iff_of_true rfl fun _ h => absurd h List.not_mem_nil
  | (key, field) :: fields => by
      rw [nullifiedFields, List.cons.injEq, Prod.mk.injEq, nullified_eq_self_iff field,
        nullifiedFields_eq_self_iff fields, List.forall_mem_cons, eq_self, true_and]

end

end Value

namespace Json

mutual

/-- A value that was made a document has null in the place of each number that is not
finite. -/
theorem toValue_ofValue : (v : Value) → (ofValue v).toValue = v.nullified
  | .null => rfl
  | .bool _ => rfl
  | .text _ => rfl
  | .number (.int _) => rfl
  | .number (.float x) => by
      rw [ofValue, Value.nullified]
      by_cases hx : (Number.float x).isFinite = true
      · rw [dif_pos hx, toValue, if_pos (show x.isFinite = true from hx)]
      · rw [dif_neg hx, toValue, if_neg (show ¬x.isFinite = true from hx)]
  | .list items => by rw [ofValue, toValue, toItems_ofItems items, Value.nullified]
  | .object fields => by rw [ofValue, toValue, toFields_ofFields fields, Value.nullified]

theorem toItems_ofItems :
    (items : List Value) → toItems (ofItems items) = Value.nullifiedItems items
  | [] => rfl
  | item :: items => by
      rw [ofItems, toItems, toValue_ofValue item, toItems_ofItems items, Value.nullifiedItems]

theorem toFields_ofFields :
    (fields : List (String × Value)) → toFields (ofFields fields) = Value.nullifiedFields fields
  | [] => rfl
  | (key, field) :: fields => by
      rw [ofFields, toFields, toValue_ofValue field, toFields_ofFields fields,
        Value.nullifiedFields]

end

/-- A value survives the way to a document and back when its numbers are all finite. -/
theorem toValue_ofValue_eq_self_iff {v : Value} : (ofValue v).toValue = v ↔ v.IsFinite := by
  rw [toValue_ofValue, Value.nullified_eq_self_iff]

end Json

end DataRules
