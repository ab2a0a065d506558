import DataRules.Eval.Basic
import DataRules.Table
import DataRules.Text.Invisible

set_option autoImplicit false

/-!
# Eval: operations

An operation is what an operator name stands for: a function of the evaluated
arguments, a method that is given the data context too, or a group of named
operations, which cannot be called itself.
-/

namespace DataRules

/-- An entry of a registry. -/
inductive Operation (σ : Type) where
  /-- called with the evaluated arguments -/
  | function (body : List Value → Eval σ Value)
  /-- called with the data context and the evaluated arguments -/
  | method (body : Value → List Value → Eval σ Value)
  /-- a table of operations, reached by their names -/
  | group (members : List (String × Operation σ))

namespace Operation

variable {σ : Type}

/-- A group with these members; of two under one name the later one stays. -/
def groupOf (members : List (String × Operation σ)) : Operation σ :=
  .group (Table.ofList members)

/-- The call of an operation; a group has none. -/
def call? (operation : Operation σ) (data : Value) (args : List Value) : Option (Eval σ Value) :=
  match operation with
  | .function body => some (body args)
  | .method body => some (body data args)
  | .group _ => none

/-- The operations that can be reached through an operation. -/
def members : Operation σ → List (String × Operation σ)
  | .group members => members
  | _ => []

/-- A character of a quoted name: quote, backslash and what would not show are
escaped. -/
def escape (c : Char) : List Char :=
  if c = '"' then ['\\', '"']
  else if c = '\\' then ['\\', '\\']
  else if c = '\n' then ['\\', 'n']
  else if c = '\r' then ['\\', 'r']
  else if c = '\t' then ['\\', 't']
  else if c = '\x00' then ['\\', '0']
  else if Text.isInvisible c then
    ['\\', 'u', '\x7b'] ++ Nat.toDigits 16 c.toNat ++ ['\x7d']
  else [c]

/-- A name in quotes. -/
def quoted (name : String) : String :=
  String.ofList ('"' :: (name.toList.flatMap escape ++ ['"']))

/-- What kind of entry the operation is; a group lists the names of its members. -/
def summary : Operation σ → String
  | .function _ => "Function"
  | .method _ => "Method"
  | .group members =>
      "Group([" ++ ", ".intercalate (members.map fun member => quoted member.1) ++ "])"

end Operation

end DataRules
