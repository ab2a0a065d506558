import DataRules.Number.Basic

set_option autoImplicit false

/-!
# Value: the data of the language

Rules, data contexts and results are values: null, booleans, numbers, texts,
lists and objects.  The fields of an object are a table in ascending key order,
so two objects with the same fields are the same list of fields.  This module
holds the type and the conversions every operator falls back on: truth, number
and text.
-/

namespace DataRules

/-- A value of the language. -/
inductive Value where
  | null
  | bool (b : Bool)
  | number (n : Number)
  | text (s : String)
  | list (items : List Value)
  | object (fields : List (String × Value))
  deriving Inhabited

namespace Value

open DataRules.Double

/-- The integer `i`, as a double where 64 bits do not hold it. -/
def ofInt (i : Int) : Value := .number ((Number.ofInt? i).getD (.float (Float.ofInt i)))

/-- The number a double stands for. -/
def ofFloat (x : Float) : Value := .number (Number.ofFloat x)

/-- The value that is no number. -/
def nan : Value := .number (.float Double.nan)

/-- The truth of a value: `false`, zeros, NaN, the empty text, null and the empty
list are false, and everything else is true. -/
def isTruthy : Value → Bool
  | .null => false
  | .bool b => b
  | .number n => n.isTruthy
  | .text s => s ≠ ""
  | .list items => !items.isEmpty
  | .object _ => true

/-- The value is null. -/
def isNull : Value → Bool
  | .null => true
  | _ => false

/-- The value is a number. -/
def isNumber : Value → Bool
  | .number _ => true
  | _ => false

/-- The value is a list or an object. -/
def isContainer : Value → Bool
  | .list _ => true
  | .object _ => true
  | _ => false

/-- The items of a list, and otherwise the value alone. -/
def asList : Value → List Value
  | .list items => items
  | v => [v]

/-- The value as a number, for arithmetic and ordering: truth is one or zero,
null is zero, a text is read, a list counts as its only item or as zero without
any, and what is left is NaN. -/
def toNumber : Value → Float
  | .null => 0
  | .bool b => if b then 1 else 0
  | .number n => n.toFloat
  | .text s => Double.ofText s
  | .list [] => 0
  | .list [item] => item.toNumber
  | .list (_ :: _ :: _) => Double.nan
  | .object _ => Double.nan

mutual

/-- The value as a text.  The items of a list are joined with commas, null among
them showing as nothing, and every object shows alike. -/
def toText : Value → String
  | .null => "null"
  | .bool b => if b then "true" else "false"
  | .number n => n.text
  | .text s => s
  | .list items => ",".intercalate (itemTexts items)
  | .object _ => "[object Object]"

/-- The texts of the items of a list. -/
def itemTexts : List Value → List String
  | [] => []
  | .null :: items => "" :: itemTexts items
  | item :: items => item.toText :: itemTexts items

end

/-- The text of a value inside a longer text, where null shows as nothing. -/
def inlineText : Value → String
  | .null => ""
  | v => v.toText

/-- The items are shown one by one, each as inside a longer text. -/
theorem itemTexts_eq_map (items : List Value) : itemTexts items = items.map inlineText := by
  induction items with
  | nil => rfl
  | cons item items ih => cases item <;> simp [itemTexts, inlineText, ih]

theorem toText_list (items : List Value) :
    (Value.list items).toText = ",".intercalate (items.map inlineText) := by
  rw [toText, itemTexts_eq_map]

end Value

end DataRules
