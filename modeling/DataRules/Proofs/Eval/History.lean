import DataRules.Eval.Engine
import DataRules.Proofs.Eval.Resolution
import DataRules.Proofs.Text.Bytes

set_option autoImplicit false

/-!
# History: what a run of additions and removals leaves

A registry is changed by adding an operation under a name and by removing the
entry of a name.  After any run of changes, what stands under a name is told from
the history alone: it is what the last change under exactly that name added, and
nothing when that change was a removal or when there was none.  The listing of
the names and the calls that evaluation makes agree with it.
-/

namespace DataRules

variable {σ : Type}

/-- A change of a registry. -/
inductive Change (σ : Type) where
  | add (name : String) (operation : Operation σ)
  | remove (name : String)

namespace Change

/-- The name whose entry is changed. -/
def name : Change σ → String
  | .add name _ => name
  | .remove name => name

/-- The operation that stands under the name after the change. -/
def entry? : Change σ → Option (Operation σ)
  | .add _ operation => some operation
  | .remove _ => none

/-- The last change under the name adds the operation. -/
def LastAdds (history : List (Change σ)) (name : String) (operation : Operation σ) : Prop :=
  ∃ before after, history = before ++ .add name operation :: after ∧
    ∀ change ∈ after, change.name ≠ name

theorem not_lastAdds_nil {name : String} {operation : Operation σ} :
    ¬LastAdds [] name operation := by
  rintro ⟨before, after, hhistory, -⟩
  cases before <;> cases hhistory

/-- The first change matters when no other one is under the name. -/
theorem lastAdds_cons {change : Change σ} {changes : List (Change σ)} {name : String}
    {operation : Operation σ} :
    LastAdds (change :: changes) name operation ↔
      LastAdds changes name operation ∨
        change = .add name operation ∧ ∀ later ∈ changes, later.name ≠ name := by
  constructor
  · rintro ⟨before, after, hhistory, hafter⟩
    cases before with
    | nil =>
        obtain ⟨rfl, rfl⟩ := List.cons.inj hhistory
        exact .inr ⟨rfl, hafter⟩
    | cons first before =>
        obtain ⟨rfl, rfl⟩ := List.cons.inj hhistory
        exact .inl ⟨before, after, rfl, hafter⟩
  · rintro (⟨before, after, rfl, hafter⟩ | ⟨rfl, hlater⟩)
    · exact ⟨change :: before, after, rfl, hafter⟩
    · exact ⟨[], changes, rfl, hlater⟩

end Change

namespace Registry

/-! ## Runs of changes -/

/-- The registry after a change. -/
def change (registry : Registry σ) : Change σ → Registry σ
  | .add name operation => registry.insert name operation
  | .remove name => (registry.remove name).2

/-- The registry after a run of changes, in order. -/
def run (registry : Registry σ) (changes : List (Change σ)) : Registry σ :=
  changes.foldl change registry

theorem run_append (registry : Registry σ) (front back : List (Change σ)) :
    registry.run (front ++ back) = (registry.run front).run back :=
  List.foldl_append

/-- A change sets the entry of its own name and leaves every other one. -/
theorem get?_change (registry : Registry σ) (change : Change σ) (name : String) :
    (registry.change change).get? name =
      if change.name = name then change.entry? else registry.get? name := by
  cases change with
  | add other operation =>
      show (registry.insert other operation).get? name = _
      split
      · next h =>
          obtain rfl : other = name := h
          exact get?_insert_self registry other operation
      · next h => exact get?_insert_of_ne registry h operation
  | remove other =>
      show (registry.erase other).get? name = _
      split
      · next h =>
          obtain rfl : other = name := h
          exact get?_erase_self registry other
      · next h => exact get?_erase_of_ne registry h

/-- After a run, what stands under a name is what the last change under it added,
or what stood there before when no change was under it. -/
theorem get?_run {changes : List (Change σ)} {registry : Registry σ} {name : String}
    {operation : Operation σ} :
    (registry.run changes).get? name = some operation ↔
      Change.LastAdds changes name operation ∨
        (∀ change ∈ changes, change.name ≠ name) ∧ registry.get? name = some operation := by
  induction changes generalizing registry with
  | nil => simp [run, Change.not_lastAdds_nil]
  | cons change changes ih =>
      have hstep : (registry.run (change :: changes)) = (registry.change change).run changes := rfl
      rw [hstep, ih, Change.lastAdds_cons, get?_change, List.forall_mem_cons]
      by_cases hname : change.name = name
      · rw [if_pos hname]
        have hentry : change.entry? = some operation ↔ change = .add name operation := by
          cases change with
          | add other added => simp_all [Change.entry?, Change.name]
          | remove other => simp [Change.entry?]
        simp [hentry, hname, and_comm]
      · rw [if_neg hname]
        have hother : change ≠ .add name operation := by
          rintro rfl
          exact hname rfl
        simp [hname, hother]

/-- Adding an operation under a new name and removing it again leaves the registry as
it was. -/
theorem erase_insert_of_get?_eq_none {registry : Registry σ} {name : String}
    (h : registry.get? name = none) (operation : Operation σ) :
    (registry.insert name operation).erase name = registry := by
  obtain ⟨entries, ascending⟩ := registry
  simp only [insert, erase, Registry.mk.injEq]
  exact Table.erase_insert h operation

/-! ## The listing -/

theorem mem_names_iff_contains {registry : Registry σ} {name : String} :
    name ∈ registry.names ↔ registry.contains name = true := by
  rw [contains, Option.isSome_iff_ne_none, get?, ne_eq, Table.lookup_eq_none_iff,
    Decidable.not_not]
  rfl

/-- The names are listed in the order of their bytes, each once. -/
theorem names_ascend (registry : Registry σ) :
    registry.names.Pairwise fun name other => Text.bytes name < Text.bytes other := by
  rw [names, List.pairwise_map]
  exact registry.ascending.imp Text.bytes_lt

/-! ## Calls -/

/-- A name without a dot past its first character, and not of the evaluator's own, is
looked up as it is: its entry is called with the values of the arguments. -/
theorem apply_of_entry {registry : Registry σ} {name : String}
    (hkeyword : Keyword.ofName? name = none) {entry : Operation σ}
    {call : Value → List Value → Eval σ Value} (hget : registry.get? name = some entry)
    (hruns : entry.Runs call) (operand data : Value) :
    registry.apply (.object [(name, operand)]) data =
      Control.evaluateAll (operand.asList.map registry.apply) data >>= call data := by
  rw [apply_operation, operator, hkeyword]
  simp only [invoke_of_entry hget hruns]

/-- Without a callable entry the call fails, once the arguments have values. -/
theorem Free.apply_plain {registry : Registry σ} {name : String} (hfree : registry.Free name)
    (hplain : Path.isDotted name = false) (hkeyword : Keyword.ofName? name = none)
    (operand data : Value) :
    registry.apply (.object [(name, operand)]) data =
      Control.evaluateAll (operand.asList.map registry.apply) data >>= fun _ =>
        .fail (.unrecognized name none) := by
  rw [apply_operation, operator, hkeyword]
  simp only [hfree.invoke_plain hplain]

/-! ## Where a run starts -/

theorem entries_run_add (entries : List (String × Operation σ)) (registry : Registry σ) :
    (registry.run (entries.map fun entry => .add entry.1 entry.2)).entries =
      entries.foldl (fun table entry => Table.insert entry.1 entry.2 table) registry.entries := by
  induction entries generalizing registry with
  | nil => rfl
  | cons entry entries ih => exact ih (registry.insert entry.1 entry.2)

/-- A registry with given entries comes from the empty one by adding them in order. -/
theorem ofList_eq_run (entries : List (String × Operation σ)) :
    ofList entries = empty.run (entries.map fun entry => .add entry.1 entry.2) := by
  have hentries := entries_run_add entries (empty : Registry σ)
  generalize (empty : Registry σ).run _ = registry at hentries
  obtain ⟨table, ascending⟩ := registry
  simp only [ofList, Registry.mk.injEq]
  exact hentries.symm

end Registry

/-- A registry to start from. -/
inductive Start where
  | empty
  | builtins

namespace Start

/-- The registry that a run starts from. -/
def registry : Start → Registry σ
  | .empty => .empty
  | .builtins => .builtins

/-- The additions that make it. -/
def additions : Start → List (Change σ)
  | .empty => []
  | .builtins => Builtin.catalog.map fun entry => .add entry.1 (.function entry.2)

theorem registry_eq_run (start : Start) :
    (start.registry : Registry σ) = Registry.empty.run start.additions := by
  cases start with
  | empty => rfl
  | builtins =>
      rw [registry, Registry.builtins, Registry.ofList_eq_run, List.map_map]
      rfl

end Start

namespace Registry

/-- The registry is the one that the history of changes, made on the empty registry,
leaves. -/
structure Follows (registry : Registry σ) (history : List (Change σ)) : Prop where
  /-- Under a name stands what the last change under exactly that name added. -/
  get : ∀ (name : String) (operation : Operation σ),
    registry.get? name = some operation ↔ Change.LastAdds history name operation
  /-- The names are listed in strictly ascending order of their bytes. -/
  ascending : registry.names.Pairwise fun name other => Text.bytes name < Text.bytes other
  /-- The names that are listed are those with an entry. -/
  listed : ∀ name : String, name ∈ registry.names ↔ registry.contains name = true
  /-- Removing gives back the entry, and so gives one exactly when the name had one;
  the name has none afterwards. -/
  removed : ∀ name : String,
    (∀ operation, (registry.remove name).1 = some operation ↔
      Change.LastAdds history name operation) ∧
    (registry.remove name).1.isSome = registry.contains name ∧
    (registry.remove name).2.contains name = false
  /-- An operator of the registry without a dot past its first character evaluates its
  arguments and runs the entry that stands under its name on their values. -/
  called : ∀ {name : String}, Path.isDotted name = false → Keyword.ofName? name = none →
    ∀ {operation : Operation σ} {call : Value → List Value → Eval σ Value},
    Change.LastAdds history name operation → operation.Runs call →
    ∀ operand data : Value, registry.apply (.object [(name, operand)]) data =
      Control.evaluateAll (operand.asList.map registry.apply) data >>= call data
  /-- When nothing stands under its name, or a group, it fails after its arguments. -/
  unrecognized : ∀ {name : String}, Path.isDotted name = false → Keyword.ofName? name = none →
    (∀ operation, Change.LastAdds history name operation →
      ∃ members, operation = .group members) →
    ∀ operand data : Value, registry.apply (.object [(name, operand)]) data =
      Control.evaluateAll (operand.asList.map registry.apply) data >>= fun _ =>
        .fail (.unrecognized name none)
  /-- Adding under a name without an entry and removing again changes no call. -/
  restored : ∀ {name : String}, registry.contains name = false →
    ∀ (operation : Operation σ) (other : String) (data : Value) (args : List Value),
      (registry.run [.add name operation, .remove name]).invoke other data args =
        registry.invoke other data args

/-- After every run of changes, on the empty registry or on that of the built-in
operations, the registry follows the history. -/
theorem run_follows (start : Start) (changes : List (Change σ)) :
    (start.registry.run changes).Follows (start.additions ++ changes) := by
  have hrun : start.registry.run changes = empty.run (start.additions ++ changes) := by
    rw [run_append, start.registry_eq_run]
  rw [hrun]
  generalize start.additions ++ changes = history
  have hget : ∀ name operation, (empty.run history).get? name = some operation ↔
      Change.LastAdds history name operation := by
    intro name operation
    rw [get?_run]
    simp
  refine ⟨hget, names_ascend _, fun _ => mem_names_iff_contains, ?_, ?_, ?_, ?_⟩
  · intro name
    refine ⟨hget name, rfl, ?_⟩
    rw [contains, remove, get?_erase_self]
    rfl
  · intro name _ hkeyword operation call hadds hruns operand data
    exact apply_of_entry hkeyword ((hget name operation).mpr hadds) hruns operand data
  · intro name hplain hkeyword hgroups operand data
    have hfree : (empty.run history).Free name := by
      rcases (empty.run history).entry_or_free name with ⟨entry, call, hentry, hruns⟩ | hfree
      · obtain ⟨members, rfl⟩ := hgroups entry ((hget name entry).mp hentry)
        exact absurd hruns Operation.not_runs_group
      · exact hfree
    exact hfree.apply_plain hplain hkeyword operand data
  · intro name habsent operation other data args
    have hnone : (empty.run history).get? name = none := by
      rwa [contains, Option.isSome_eq_false_iff, Option.isNone_iff_eq_none] at habsent
    have hsame := erase_insert_of_get?_eq_none hnone operation
    exact congrArg (fun registry => registry.invoke other data args) hsame

end Registry

end DataRules
