import DataRules.Eval.Registry

set_option autoImplicit false

/-!
# Resolution: which operation a name calls

The entries of a registry and the members of its groups form a tree, whose inner
nodes are the groups and whose leaves are the operations that can be called.
`Leads` says, apart from the walk through it, to which operation a chain of
member names leads.  A dotted name calls the leaf at the end of the chain of its
segments, unless a callable entry stands under the whole name; every leaf is
called in this way by the name that its chain joins to, and nothing else is
called.
-/

namespace DataRules

variable {σ : Type}

/-- Calling the operation is running `call` on the data context and the arguments:
a method is given both, a function the arguments alone, and a group is not
called. -/
inductive Operation.Runs : Operation σ → (Value → List Value → Eval σ Value) → Prop where
  | function (body : List Value → Eval σ Value) : Runs (.function body) fun _ args => body args
  | method (body : Value → List Value → Eval σ Value) : Runs (.method body) body

theorem Operation.Runs.call?_eq {operation : Operation σ} {call : Value → List Value → Eval σ Value}
    (h : operation.Runs call) (data : Value) (args : List Value) :
    operation.call? data args = some (call data args) := by
  cases h with
  | function body => rfl
  | method body => rfl

/-- Every operation but a group can be called. -/
theorem Operation.runs_or_group (operation : Operation σ) :
    (∃ call, operation.Runs call) ∨ ∃ members, operation = .group members := by
  cases operation with
  | function body => exact .inl ⟨_, .function body⟩
  | method body => exact .inl ⟨_, .method body⟩
  | group members => exact .inr ⟨members, rfl⟩

theorem Operation.not_runs_group {members : List (String × Operation σ)}
    {call : Value → List Value → Eval σ Value} : ¬(Operation.group members).Runs call := by
  rintro ⟨⟩

namespace Registry

variable {registry : Registry σ} {name : String} {call : Value → List Value → Eval σ Value}

/-! ## Chains of member names -/

/-- The chain of names leads from a table to an operation: the last name is that of
the operation, each before it that of a group with the next name among its
members. -/
inductive Leads : List (String × Operation σ) → List String → Operation σ → Prop where
  | last {table : List (String × Operation σ)} {name : String} {operation : Operation σ}
      (hlookup : Table.lookup name table = some operation) : Leads table [name] operation
  | through {table members : List (String × Operation σ)} {name : String} {names : List String}
      {operation : Operation σ} (hlookup : Table.lookup name table = some (.group members))
      (hrest : Leads members names operation) : Leads table (name :: names) operation

theorem not_leads_nil {names : List String} {operation : Operation σ} :
    ¬Leads [] names operation := by
  intro h
  cases h with
  | last hlookup => cases hlookup
  | through hlookup _ => cases hlookup

/-- Only a group leads further than to itself. -/
theorem leads_cons_cons_iff {table : List (String × Operation σ)} {first next : String}
    {rest : List String} {operation : Operation σ} :
    Leads table (first :: next :: rest) operation ↔
      ∃ inner, Table.lookup first table = some inner ∧
        Leads inner.members (next :: rest) operation := by
  constructor
  · intro h
    cases h with
    | through hlookup hrest => exact ⟨_, hlookup, hrest⟩
  · rintro ⟨inner, hlookup, hrest⟩
    cases inner with
    | function body => exact absurd hrest not_leads_nil
    | method body => exact absurd hrest not_leads_nil
    | group members => exact .through hlookup hrest

/-- Resolving a chain of names finds the operation that it leads to. -/
theorem resolve_eq_ok_iff {table : List (String × Operation σ)} {names : List String}
    {operation : Operation σ} : resolve table names = .ok operation ↔ Leads table names operation := by
  induction names generalizing table with
  | nil =>
      constructor
      · intro h
        cases h
      · intro h
        cases h
  | cons first rest ih =>
      cases rest with
      | nil =>
          constructor
          · intro h
            unfold resolve at h
            split at h
            · next hlookup =>
                obtain rfl := Except.ok.inj h
                exact .last hlookup
            · cases h
          · intro h
            cases h with
            | last hlookup => rw [resolve, hlookup]
            | through _ hrest => cases hrest
      | cons next rest =>
          rw [leads_cons_cons_iff, resolve]
          split
          · next inner hlookup =>
              have hinner := @ih inner.members
              split
              · next found hfound =>
                  rw [hfound] at hinner
                  simp [hlookup, ← hinner]
              · next n hfailed =>
                  rw [hfailed] at hinner
                  simp [hlookup, ← hinner]
          · next hlookup => simp [hlookup]

theorem Leads.unique {table : List (String × Operation σ)} {names : List String}
    {operation other : Operation σ} (h : Leads table names operation)
    (hother : Leads table names other) : operation = other := by
  rw [← resolve_eq_ok_iff] at h hother
  rw [h] at hother
  exact Except.ok.inj hother

/-! ## The entry under the whole name -/

/-- No callable entry stands under the whole name: there is none, or it is a
group. -/
def Free (registry : Registry σ) (name : String) : Prop :=
  registry.get? name = none ∨ ∃ members, registry.get? name = some (.group members)

/-- Under a name stands a callable entry, or the name is free. -/
theorem entry_or_free (registry : Registry σ) (name : String) :
    (∃ entry call, registry.get? name = some entry ∧ entry.Runs call) ∨ registry.Free name := by
  cases hget : registry.get? name with
  | none => exact .inr (.inl hget)
  | some entry =>
      rcases entry.runs_or_group with ⟨call, hruns⟩ | ⟨members, rfl⟩
      · exact .inl ⟨entry, call, rfl, hruns⟩
      · exact .inr (.inr ⟨members, hget⟩)

theorem Free.not_runs (hfree : registry.Free name) {entry : Operation σ}
    (hget : registry.get? name = some entry) : ¬entry.Runs call := by
  rcases hfree with hnone | ⟨members, hgroup⟩
  · rw [hnone] at hget
    cases hget
  · rw [hgroup] at hget
    obtain rfl := Option.some.inj hget
    exact Operation.not_runs_group

/-- A callable entry under the whole name is called. -/
theorem invoke_of_entry {entry : Operation σ} (hget : registry.get? name = some entry)
    (hruns : entry.Runs call) (data : Value) (args : List Value) :
    registry.invoke name data args = call data args := by
  rw [invoke, hget, Option.bind_some, hruns.call?_eq]

theorem Free.bind_call? (hfree : registry.Free name) (data : Value) (args : List Value) :
    ((registry.get? name).bind fun operation => operation.call? data args) = none := by
  rcases hfree with hnone | ⟨members, hgroup⟩
  · rw [hnone, Option.bind_none]
  · rw [hgroup, Option.bind_some, Operation.call?]

/-- A free name with a dot past its first character is followed through the groups. -/
theorem Free.invoke_dotted (hfree : registry.Free name) (hdotted : Path.isDotted name = true)
    (data : Value) (args : List Value) :
    registry.invoke name data args = registry.invokeDotted name data args := by
  rw [invoke, hfree.bind_call?, hdotted]
  rfl

/-- Any other free name calls nothing. -/
theorem Free.invoke_plain (hfree : registry.Free name) (hplain : Path.isDotted name = false)
    (data : Value) (args : List Value) :
    registry.invoke name data args = .fail (.unrecognized name none) := by
  rw [invoke, hfree.bind_call?, hplain]
  rfl

/-! ## The end of the chain -/

theorem invokeDotted_of_leaf {leaf : Operation σ}
    (hleads : Leads registry.entries (Path.segments name) leaf) (hruns : leaf.Runs call)
    (data : Value) (args : List Value) :
    registry.invokeDotted name data args = call data args := by
  simp only [invokeDotted, resolve_eq_ok_iff.mpr hleads, hruns.call?_eq]

theorem invokeDotted_of_group {members : List (String × Operation σ)}
    (hleads : Leads registry.entries (Path.segments name) (.group members)) (data : Value)
    (args : List Value) :
    registry.invokeDotted name data args = .fail (.unrecognized name (some name)) := by
  simp only [invokeDotted, resolve_eq_ok_iff.mpr hleads, Operation.call?]

/-! ## Dispatch -/

/-- The name calls `call`: that of the entry under the whole name, or, when no such
entry can be called, that of the leaf at the end of the segments of a dotted
name. -/
inductive Calls (registry : Registry σ) (name : String)
    (call : Value → List Value → Eval σ Value) : Prop where
  | entry {operation : Operation σ} (hget : registry.get? name = some operation)
      (hruns : operation.Runs call) : Calls registry name call
  | leaf {operation : Operation σ} (hfree : registry.Free name)
      (hdotted : Path.isDotted name = true)
      (hleads : Leads registry.entries (Path.segments name) operation)
      (hruns : operation.Runs call) : Calls registry name call

/-- A free name calls nothing unless it is dotted and leads to what is no group. -/
theorem Free.not_calls (hfree : registry.Free name)
    (hgroups : Path.isDotted name = true → ∀ operation,
      Leads registry.entries (Path.segments name) operation → ∃ members, operation = .group members) :
    ¬registry.Calls name call := by
  intro hcalls
  cases hcalls with
  | entry hget hruns => exact hfree.not_runs hget hruns
  | leaf _ hdotted hleads hruns =>
      obtain ⟨members, rfl⟩ := hgroups hdotted _ hleads
      exact Operation.not_runs_group hruns

/-- A free dotted name calls the leaf that it leads to, or fails. -/
theorem Free.calls_or_unrecognized (hfree : registry.Free name)
    (hdotted : Path.isDotted name = true) :
    (∃ call, registry.Calls name call ∧
      ∀ data args, registry.invoke name data args = call data args) ∨
    (∀ call, ¬registry.Calls name call) ∧
      ∃ failedAt, ∀ data args,
        registry.invoke name data args = .fail (.unrecognized name failedAt) := by
  cases hresolve : resolve registry.entries (Path.segments name) with
  | ok operation =>
      have hleads := resolve_eq_ok_iff.mp hresolve
      rcases operation.runs_or_group with ⟨call, hruns⟩ | ⟨members, rfl⟩
      · refine .inl ⟨call, .leaf hfree hdotted hleads hruns, fun data args => ?_⟩
        rw [hfree.invoke_dotted hdotted, invokeDotted_of_leaf hleads hruns]
      · refine .inr ⟨fun call => hfree.not_calls fun _ other hother => ?_, some name, ?_⟩
        · exact ⟨members, hother.unique hleads⟩
        · intro data args
          rw [hfree.invoke_dotted hdotted, invokeDotted_of_group hleads]
  | error n =>
      refine .inr ⟨fun call => hfree.not_calls fun _ other hother => ?_,
        some (Path.join ((Path.segments name).take n)), ?_⟩
      · rw [resolve_eq_ok_iff.mpr hother] at hresolve
        cases hresolve
      · intro data args
        rw [hfree.invoke_dotted hdotted]
        simp only [invokeDotted, hresolve]

/-- A name that calls something is invoked as that, and any other fails as
unrecognized, whatever the data and the arguments are. -/
theorem calls_or_unrecognized (registry : Registry σ) (name : String) :
    (∃ call, registry.Calls name call ∧
      ∀ data args, registry.invoke name data args = call data args) ∨
    (∀ call, ¬registry.Calls name call) ∧
      ∃ failedAt, ∀ data args,
        registry.invoke name data args = .fail (.unrecognized name failedAt) := by
  rcases registry.entry_or_free name with ⟨entry, call, hget, hruns⟩ | hfree
  · exact .inl ⟨call, .entry hget hruns, invoke_of_entry hget hruns⟩
  · cases hdotted : Path.isDotted name with
    | true => exact hfree.calls_or_unrecognized hdotted
    | false =>
        refine .inr ⟨fun call => hfree.not_calls ?_, none, hfree.invoke_plain hdotted⟩
        intro htrue
        rw [hdotted] at htrue
        cases htrue

/-- Invocation over the registry calls the leaves of the tree of groups, each under
the name that its chain joins to, and nothing else. -/
structure Dispatches (registry : Registry σ) : Prop where
  /-- A chain of two names or more, without dots and the first one not empty, that
  leads to what can be called: the joined name calls it, unless a callable entry
  stands under the whole name.  A group under the whole name is no obstacle. -/
  complete : ∀ {first next : String} {rest : List String} {leaf : Operation σ}
    {call : Value → List Value → Eval σ Value},
    (∀ name ∈ first :: next :: rest, '.' ∉ name.toList) → first ≠ "" →
    Leads registry.entries (first :: next :: rest) leaf → leaf.Runs call →
    registry.Free (Path.join (first :: next :: rest)) →
    ∀ data args, registry.invoke (Path.join (first :: next :: rest)) data args = call data args
  /-- A callable entry under the whole name is called in its place. -/
  shadowed : ∀ {name : String} {entry : Operation σ} {call : Value → List Value → Eval σ Value},
    registry.get? name = some entry → entry.Runs call →
    ∀ data args, registry.invoke name data args = call data args
  /-- What is invoked is either the callable entry under the whole name or the leaf
  at the end of the segments of the name; without either, the registry fails. -/
  sound : ∀ name : String,
    (∃ call, registry.Calls name call ∧
      ∀ data args, registry.invoke name data args = call data args) ∨
    (∀ call, ¬registry.Calls name call) ∧
      ∃ failedAt, ∀ data args,
        registry.invoke name data args = .fail (.unrecognized name failedAt)
  /-- A group at the end of the segments is not called. -/
  group : ∀ {name : String} {members : List (String × Operation σ)},
    registry.Free name → Path.isDotted name = true →
    Leads registry.entries (Path.segments name) (.group members) →
    ∀ data args, registry.invoke name data args = .fail (.unrecognized name (some name))

/-- Every registry dispatches dotted names to the leaves of its groups. -/
theorem dispatches (registry : Registry σ) : registry.Dispatches where
  complete := by
    intro first next rest leaf call hdots hempty hleads hruns hfree data args
    have hsegments : Path.segments (Path.join (first :: next :: rest)) = first :: next :: rest :=
      Path.segments_join (List.cons_ne_nil first _) hdots
    have hdotted : Path.isDotted (Path.join (first :: next :: rest)) = true :=
      Path.isDotted_join hempty (hdots first List.mem_cons_self) next rest
    rw [← hsegments] at hleads
    rw [hfree.invoke_dotted hdotted, invokeDotted_of_leaf hleads hruns]
  shadowed := invoke_of_entry
  sound := registry.calls_or_unrecognized
  group := by
    intro name members hfree hdotted hleads data args
    rw [hfree.invoke_dotted hdotted, invokeDotted_of_group hleads]

/-- Entries under `user` and under the dotted name itself, both groups. -/
example : (((empty : Registry Unit).insert "user" (.group [("name", .method fun data _ =>
      pure data)])).insert "user.name" (.group [])).invoke "user.name" (.bool true) [] =
    pure (.bool true) := by
  rfl

end Registry

end DataRules
