import DataRules.Value.Basic

set_option autoImplicit false

/-!
# Value: equality and order

Values are compared in four ways.  `same` and `equals` convert nothing and
differ only on numbers, where `equals` lets an integer equal a double.
`looselyEquals` brings the two sides to a common kind first: booleans count as
numbers, containers meet scalars as texts, and a text meets a number as a
number.  `order?` orders two texts by code point and everything else as numbers.
-/

namespace DataRules.Value

open DataRules.Double

mutual

/-- The same value, written the same way. -/
def same : Value → Value → Bool
  | .null, .null => true
  | .bool a, .bool b => a == b
  | .number m, .number n => m.same n
  | .text s, .text t => s == t
  | .list as, .list bs => sameItems as bs
  | .object as, .object bs => sameFields as bs
  | _, _ => false

/-- The same items at the same positions. -/
def sameItems : List Value → List Value → Bool
  | [], [] => true
  | a :: as, b :: bs => a.same b && sameItems as bs
  | _, _ => false

/-- The same keys with the same values. -/
def sameFields : List (String × Value) → List (String × Value) → Bool
  | [], [] => true
  | (k, a) :: as, (l, b) :: bs => k == l && a.same b && sameFields as bs
  | _, _ => false

end

mutual

/-- Equality without conversion, integers and doubles being one kind. -/
def equals : Value → Value → Bool
  | .null, .null => true
  | .bool a, .bool b => a == b
  | .number m, .number n => m.equals n
  | .text s, .text t => s == t
  | .list as, .list bs => equalItems as bs
  | .object as, .object bs => equalFields as bs
  | _, _ => false

/-- Equal items at the same positions. -/
def equalItems : List Value → List Value → Bool
  | [], [] => true
  | a :: as, b :: bs => a.equals b && equalItems as bs
  | _, _ => false

/-- The same keys with equal values. -/
def equalFields : List (String × Value) → List (String × Value) → Bool
  | [], [] => true
  | (k, a) :: as, (l, b) :: bs => k == l && a.equals b && equalFields as bs
  | _, _ => false

end

/-- The value with a boolean turned into a number. -/
def unBoolean : Value → Value
  | .bool b => .number (.int (if b then 1 else 0))
  | v => v

/-- The value with a container turned into its text. -/
def primitive (v : Value) : Value := if v.isContainer then .text v.toText else v

/-- Loose equality of two scalars that are neither null nor boolean: a text
meets a number as a number. -/
def scalarsMatch : Value → Value → Bool
  | .text s, .text t => s == t
  | .number m, .number n => m.equals n
  | a, b => isEqual a.toNumber b.toNumber

/-- Equality after bringing both sides to a common kind.  Null equals null only,
and two containers are compared without conversion. -/
def looselyEquals (a b : Value) : Bool :=
  if a.isNull || b.isNull then a.isNull && b.isNull
  else if a.isContainer && b.isContainer then a.equals b
  else scalarsMatch a.unBoolean.primitive b.unBoolean.primitive

/-- How two values compare: two texts by code point, anything else as numbers,
a container counting as its text.  There is no answer when NaN comes up. -/
def order? (a b : Value) : Option Ordering :=
  match a.primitive, b.primitive with
  | .text s, .text t => some (compare s t)
  | p, q => Double.order? p.toNumber q.toNumber

end DataRules.Value
