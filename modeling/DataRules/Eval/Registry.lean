import DataRules.Eval.Operation
import DataRules.Text.Path

set_option autoImplicit false

/-!
# Eval: the registry of operations

A registry maps operator names to operations.  An operation registered under
the whole name of an operator is called.  Failing that, a name with a dot past
its first character is followed segment by segment, from the entries of the
registry through the members of groups, to the operation it leads to.
-/

namespace DataRules

/-- A table of operations in ascending order of their names. -/
structure Registry (σ : Type) where
  entries : List (String × Operation σ)
  ascending : Table.Ascending entries

namespace Registry

variable {σ : Type}

/-- The registry without entries. -/
def empty : Registry σ := ⟨[], List.Pairwise.nil⟩

/-- The registry with these entries; of two under one name the later one stays. -/
def ofList (entries : List (String × Operation σ)) : Registry σ :=
  ⟨Table.ofList entries, Table.ascending_ofList entries⟩

/-- The registry with one entry set, in place of any entry of that name. -/
def insert (registry : Registry σ) (name : String) (operation : Operation σ) : Registry σ :=
  ⟨Table.insert name operation registry.entries, registry.ascending.insert name operation⟩

/-- The registry without the entry of that name.  A dotted name reaches no member
of a group. -/
def erase (registry : Registry σ) (name : String) : Registry σ :=
  ⟨Table.erase name registry.entries, registry.ascending.erase name⟩

/-- The entry of that name. -/
def get? (registry : Registry σ) (name : String) : Option (Operation σ) :=
  Table.lookup name registry.entries

/-- The entry of that name, if there is one, and the registry without it. -/
def remove (registry : Registry σ) (name : String) : Option (Operation σ) × Registry σ :=
  (registry.get? name, registry.erase name)

/-- There is an entry of that name. -/
def contains (registry : Registry σ) (name : String) : Bool := (registry.get? name).isSome

/-- The names of the entries, ascending. -/
def names (registry : Registry σ) : List String := registry.entries.map Prod.fst

/-- The operation that a chain of names leads to, each but the last through a
group.  On failure, the number of names up to and including the first that leads
nowhere. -/
def resolve : List (String × Operation σ) → List String → Except Nat (Operation σ)
  | _, [] => .error 0
  | table, [name] =>
      match Table.lookup name table with
      | some operation => .ok operation
      | none => .error 1
  | table, name :: next :: rest =>
      match Table.lookup name table with
      | some operation =>
          match resolve operation.members (next :: rest) with
          | .ok operation => .ok operation
          | .error n => .error (n + 1)
      | none => .error 1

/-- The call of the operation that a dotted name leads to. -/
def invokeDotted (registry : Registry σ) (name : String) (data : Value) (args : List Value) :
    Eval σ Value :=
  let segments := Path.segments name
  match resolve registry.entries segments with
  | .error n => .fail (.unrecognized name (some (Path.join (segments.take n))))
  | .ok operation =>
      match operation.call? data args with
      | some result => result
      | none => .fail (.unrecognized name (some name))

/-- The call of the operation that a name stands for. -/
def invoke (registry : Registry σ) (name : String) (data : Value) (args : List Value) :
    Eval σ Value :=
  match (registry.get? name).bind fun operation => operation.call? data args with
  | some result => result
  | none =>
      if Path.isDotted name then registry.invokeDotted name data args
      else .fail (.unrecognized name none)

@[simp] theorem get?_empty (name : String) : (empty : Registry σ).get? name = none := rfl

/-- The last of the entries under a name is the one that stays. -/
theorem get?_ofList (entries : List (String × Operation σ)) (name : String) :
    (ofList entries).get? name = Table.lookup name entries.reverse :=
  Table.lookup_ofList name entries

@[simp] theorem get?_insert_self (registry : Registry σ) (name : String)
    (operation : Operation σ) : (registry.insert name operation).get? name = some operation :=
  Table.lookup_insert_self name operation registry.entries

theorem get?_insert_of_ne (registry : Registry σ) {name other : String} (h : name ≠ other)
    (operation : Operation σ) :
    (registry.insert name operation).get? other = registry.get? other :=
  Table.lookup_insert_of_ne h operation registry.entries

@[simp] theorem get?_erase_self (registry : Registry σ) (name : String) :
    (registry.erase name).get? name = none := Table.lookup_erase_self name registry.entries

theorem get?_erase_of_ne (registry : Registry σ) {name other : String} (h : name ≠ other) :
    (registry.erase name).get? other = registry.get? other :=
  Table.lookup_erase_of_ne h registry.entries

end Registry

end DataRules
