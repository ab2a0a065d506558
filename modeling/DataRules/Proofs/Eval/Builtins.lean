import DataRules.Proofs.Eval.Dispatch

set_option autoImplicit false

/-!
# Builtins: calls of the built-in operations

The registry of the built-in operations holds one function for each name of the
catalog and no group.  So a call of a built-in name runs the function of that
name, which gives a value whatever its arguments are, and a call of any other
name fails as unrecognized, also when the name is dotted.  Neither looks at the
data context.
-/

namespace DataRules

namespace Builtin

variable {σ : Type}

/-- Every operation of the catalog is a plain function or the one that logs. -/
theorem forall_catalog {motive : (List Value → Eval σ Value) → Prop}
    (hplain : ∀ f : List Value → Value, motive (plain f)) (hlog : motive log) :
    ∀ entry ∈ catalog (σ := σ), motive entry.2 := by
  simp only [catalog, List.forall_mem_cons]
  refine ⟨hplain _, hplain _, hplain _, hplain _, hplain _, hplain _, hplain _, hplain _,
    hplain _, hplain _, hplain _, hplain _, hplain _, hplain _, hplain _, hplain _, hplain _,
    hplain _, hplain _, hplain _, hplain _, hlog, ?_⟩
  exact List.forall_mem_nil _

theorem map_fst_catalog : (catalog (σ := σ)).map Prod.fst = names := rfl

/-- An operation of the catalog gives a value for any arguments, and leaves the
host state alone. -/
theorem run_of_mem_catalog {name : String} {body : List Value → Eval σ Value}
    (h : (name, body) ∈ catalog (σ := σ)) (args : List Value) (state : σ) :
    ∃ v log, (body args).run state = (⟨.ok v, log⟩, state) := by
  have hplain : ∀ f : List Value → Value,
      ∃ v log, (plain f args : Eval σ Value).run state = (⟨.ok v, log⟩, state) := by
    intro f
    exact ⟨f args, [], rfl⟩
  have hlog : ∃ v entries, (log args : Eval σ Value).run state = (⟨.ok v, entries⟩, state) :=
    ⟨arg args 0, [Json.ofValue (arg args 0)], rfl⟩
  exact forall_catalog (motive := fun body => ∃ v log, (body args).run state =
    (⟨.ok v, log⟩, state)) hplain hlog (name, body) h

end Builtin

namespace Registry

variable {σ : Type}

/-! ## Entries of the registry -/

theorem get?_builtins (name : String) :
    (builtins : Registry σ).get? name =
      Table.lookup name ((Builtin.catalog (σ := σ)).map fun entry =>
        (entry.1, Operation.function entry.2)).reverse := by
  rw [builtins, get?_ofList]

theorem get?_builtins_eq_none_iff {name : String} :
    (builtins : Registry σ).get? name = none ↔ name ∉ Builtin.names := by
  rw [get?_builtins, Table.lookup_eq_none_iff, List.map_reverse, List.map_map, List.mem_reverse,
    ← Builtin.map_fst_catalog (σ := σ)]
  rfl

theorem function_of_get?_builtins {name : String} {operation : Operation σ}
    (h : (builtins : Registry σ).get? name = some operation) :
    ∃ body, (name, body) ∈ Builtin.catalog (σ := σ) ∧ operation = .function body := by
  rw [get?_builtins] at h
  have hmem := List.mem_reverse.mp (Table.mem_of_lookup_eq_some h)
  obtain ⟨⟨key, body⟩, hentry, heq⟩ := List.mem_map.mp hmem
  obtain ⟨rfl, rfl⟩ := Prod.mk.inj heq
  exact ⟨body, hentry, rfl⟩

/-! ## Calls -/

/-- Without groups, a chain of two names or more leads nowhere. -/
theorem resolve_of_no_members {entries : List (String × Operation σ)}
    (h : ∀ name operation, Table.lookup name entries = some operation → operation.members = [])
    (first next : String) (rest : List String) :
    ∃ n, resolve entries (first :: next :: rest) = .error n := by
  cases hfirst : Table.lookup first entries with
  | none => exact ⟨1, by simp only [resolve, hfirst]⟩
  | some operation =>
      have hnext : resolve ([] : List (String × Operation σ)) (next :: rest) = .error 1 := by
        cases rest <;> rfl
      exact ⟨2, by simp only [resolve, hfirst, h first operation hfirst, hnext]⟩

/-- A call of a built-in name runs the function of that name on the arguments. -/
theorem invoke_builtins_of_mem {name : String} (h : name ∈ Builtin.names) :
    ∃ body, (name, body) ∈ Builtin.catalog (σ := σ) ∧
      ∀ data args, (builtins : Registry σ).invoke name data args = body args := by
  cases hget : (builtins : Registry σ).get? name with
  | none => exact absurd h (get?_builtins_eq_none_iff.mp hget)
  | some operation =>
      obtain ⟨body, hmem, rfl⟩ := function_of_get?_builtins hget
      refine ⟨body, hmem, ?_⟩
      intro data args
      simp only [invoke, hget, Option.bind_some, Operation.call?]

/-- The function is the one that the catalog has last under the name. -/
theorem invoke_builtins_of_lookup {name : String} {body : List Value → Eval σ Value}
    (h : Table.lookup name ((Builtin.catalog (σ := σ)).map fun entry =>
      (entry.1, Operation.function entry.2)).reverse = some (.function body))
    (data : Value) (args : List Value) :
    (builtins : Registry σ).invoke name data args = body args := by
  rw [← get?_builtins] at h
  rw [invoke, h]
  rfl

/-- A built-in operation that does nothing but compute is given the values of its
arguments. -/
theorem apply_builtin {name : String} (hkeyword : Keyword.ofName? name = none)
    {f : List Value → Value} {data : Value}
    (hentry : ∀ args, (builtins : Registry σ).invoke name data args = Builtin.plain f args)
    (rules : List Value) :
    (builtins : Registry σ).apply (.object [(name, .list rules)]) data =
      Control.evaluateAll (rules.map builtins.apply) data >>= fun args => pure (f args) := by
  rw [apply_operation, operator, hkeyword]
  simp only [hentry]
  rfl

/-- A call of another name fails, in the same way on all data and arguments. -/
theorem invoke_builtins_of_not_mem {name : String} (h : name ∉ Builtin.names) :
    ∃ failedAt, ∀ data args,
      (builtins : Registry σ).invoke name data args = .fail (.unrecognized name failedAt) := by
  have hget := (get?_builtins_eq_none_iff (σ := σ)).mpr h
  by_cases hdotted : Path.isDotted name = true
  · obtain ⟨first, next, rest, hsegments⟩ := Path.segments_of_isDotted hdotted
    have hmembers : ∀ key operation,
        Table.lookup key (builtins : Registry σ).entries = some operation →
        operation.members = [] := by
      intro key operation hlookup
      obtain ⟨body, -, rfl⟩ := function_of_get?_builtins hlookup
      rfl
    obtain ⟨n, hresolve⟩ := resolve_of_no_members hmembers first next rest
    refine ⟨some (Path.join ((Path.segments name).take n)), ?_⟩
    intro data args
    simp only [invoke, hget, Option.bind_none, hdotted, if_true, invokeDotted, hsegments, hresolve]
  · refine ⟨none, ?_⟩
    intro data args
    simp only [invoke, hget, Option.bind_none, hdotted, if_false, Bool.false_eq_true]

/-- The built-in operations are not given the data context. -/
theorem invoke_builtins_data (name : String) (data data' : Value) (args : List Value) :
    (builtins : Registry σ).invoke name data args =
      (builtins : Registry σ).invoke name data' args := by
  by_cases h : name ∈ Builtin.names
  · obtain ⟨body, -, hcall⟩ := invoke_builtins_of_mem (σ := σ) h
    rw [hcall, hcall]
  · obtain ⟨failedAt, hcall⟩ := invoke_builtins_of_not_mem (σ := σ) h
    rw [hcall, hcall]

end Registry

end DataRules
