import DataRules.Value.Basic

set_option autoImplicit false

/-!
# Json: documents

A JSON document is what a value looks like from outside: the same shapes, but
every number in it is finite.  A value becomes a document by writing null for
each number that is not finite, and a document is a value as it stands.
-/

namespace DataRules

/-- The number is an integer or a finite double. -/
def Number.isFinite : Number → Bool
  | .int _ => true
  | .float x => x.isFinite

/-- A JSON document.  The fields of an object are a table in ascending key
order. -/
inductive Json where
  | null
  | bool (b : Bool)
  | number (n : Number) (finite : n.isFinite = true)
  | text (s : String)
  | list (items : List Json)
  | object (fields : List (String × Json))
  deriving Inhabited

namespace Json

mutual

/-- The document of a value; a number that is not finite becomes null. -/
def ofValue : Value → Json
  | .null => .null
  | .bool b => .bool b
  | .number n => if h : n.isFinite = true then .number n h else .null
  | .text s => .text s
  | .list items => .list (ofItems items)
  | .object fields => .object (ofFields fields)

/-- The documents of the items of a list. -/
def ofItems : List Value → List Json
  | [] => []
  | item :: items => ofValue item :: ofItems items

/-- The documents of the fields of an object. -/
def ofFields : List (String × Value) → List (String × Json)
  | [] => []
  | (key, field) :: fields => (key, ofValue field) :: ofFields fields

end

mutual

/-- The value that the document is. -/
def toValue : Json → Value
  | .null => .null
  | .bool b => .bool b
  | .number n _ => .number n
  | .text s => .text s
  | .list items => .list (toItems items)
  | .object fields => .object (toFields fields)

/-- The values of the items of a list. -/
def toItems : List Json → List Value
  | [] => []
  | item :: items => item.toValue :: toItems items

/-- The values of the fields of an object. -/
def toFields : List (String × Json) → List (String × Value)
  | [] => []
  | (key, field) :: fields => (key, field.toValue) :: toFields fields

end

end Json

end DataRules
