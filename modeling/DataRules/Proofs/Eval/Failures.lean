import DataRules.Proofs.Eval.Resolution
import DataRules.Proofs.Text.Segments

set_option autoImplicit false

/-!
# Failures: where a name stops resolving

A name that calls nothing fails, and the failure says how far the name could be followed.
The segments are followed from the entries of the registry through the members of groups,
and the failure names the shortest beginning that leads nowhere.  Where every segment
leads on and the whole name ends at a group, it names the whole name.  A name that is not
followed at all, because it has no dot or begins with one, fails without a beginning.
-/

namespace DataRules.Registry

variable {σ : Type}

/-! ## Chains that stop -/

section Chains

variable {table : List (String × Operation σ)} {names : List String} {operation : Operation σ}
  {n : Nat}

/-- A chain leads through what its first name leads to. -/
theorem leads_cons_iff {first : String} (hnames : names ≠ []) :
    Leads table (first :: names) operation ↔
      ∃ inner, Table.lookup first table = some inner ∧ Leads inner.members names operation := by
  obtain ⟨next, rest, rfl⟩ := List.exists_cons_of_ne_nil hnames
  exact leads_cons_cons_iff

/-- Every beginning of a chain that leads to an operation leads to one itself. -/
theorem Leads.take (h : Leads table names operation) (hpos : 0 < n) :
    ∃ inner, Leads table (names.take n) inner := by
  induction h generalizing n with
  | last hlookup =>
      rw [List.take_of_length_le hpos]
      exact ⟨_, .last hlookup⟩
  | through hlookup hrest ih =>
      obtain ⟨m, rfl⟩ := Nat.exists_eq_succ_of_ne_zero (Nat.ne_of_gt hpos)
      rw [List.take_succ_cons]
      rcases Nat.eq_zero_or_pos m with rfl | hm
      · exact ⟨_, .last hlookup⟩
      · obtain ⟨inner, hinner⟩ := ih hm
        exact ⟨inner, .through hlookup hinner⟩

/-- The first `n` names are the shortest beginning of a chain at which it stops: the
beginning leads nowhere, or it is the whole chain and leads to a group. -/
structure StopsAt (table : List (String × Operation σ)) (names : List String) (n : Nat) :
    Prop where
  pos : 0 < n
  le : n ≤ names.length
  /-- Every shorter beginning leads to an operation, through groups. -/
  before : ∀ m, 0 < m → m < n → ∃ operation, Leads table (names.take m) operation
  stops : (∀ operation, ¬Leads table (names.take n) operation) ∨
    n = names.length ∧ ∃ members, Leads table names (.group members)

/-- A chain stops at its first name when there is no entry of that name. -/
theorem stopsAt_one {first : String} (hlookup : Table.lookup first table = none) :
    StopsAt table (first :: names) 1 where
  pos := Nat.one_pos
  le := by simp
  before := by
    intro m hpos hlt
    omega
  stops := by
    refine .inl fun operation hleads => ?_
    rw [List.take_succ_cons, List.take_zero] at hleads
    cases hleads with
    | last hsome =>
        rw [hlookup] at hsome
        cases hsome
    | through _ hrest => cases hrest

/-- Where the first name leads on, a chain stops one name later than the rest of it. -/
theorem StopsAt.cons {first : String} {inner : Operation σ}
    (hlookup : Table.lookup first table = some inner) (h : StopsAt inner.members names n) :
    StopsAt table (first :: names) (n + 1) := by
  obtain ⟨hpos, hle, hbefore, hstops⟩ := h
  have hfront : ∀ m, 0 < m → names.take m ≠ [] := by
    intro m hm
    rw [← List.length_pos_iff, List.length_take]
    omega
  constructor
  · omega
  · rw [List.length_cons]
    omega
  · intro m hm hlt
    obtain ⟨k, rfl⟩ := Nat.exists_eq_succ_of_ne_zero (Nat.ne_of_gt hm)
    rw [List.take_succ_cons]
    rcases Nat.eq_zero_or_pos k with rfl | hk
    · exact ⟨inner, .last hlookup⟩
    · obtain ⟨operation, hleads⟩ := hbefore k hk (Nat.lt_of_succ_lt_succ hlt)
      exact ⟨operation, (leads_cons_iff (hfront k hk)).mpr ⟨inner, hlookup, hleads⟩⟩
  · rcases hstops with hnowhere | ⟨rfl, members, hgroup⟩
    · refine .inl fun operation hleads => ?_
      rw [List.take_succ_cons, leads_cons_iff (hfront n hpos)] at hleads
      obtain ⟨other, hother, hrest⟩ := hleads
      rw [hlookup] at hother
      obtain rfl := Option.some.inj hother
      exact hnowhere operation hrest
    · refine .inr ⟨rfl, members, (leads_cons_iff ?_).mpr ⟨inner, hlookup, hgroup⟩⟩
      exact List.length_pos_iff.mp hpos

/-- Resolution fails at the end of the shortest beginning that leads nowhere. -/
theorem stopsAt_of_resolve (hnames : names ≠ []) (h : resolve table names = .error n) :
    StopsAt table names n := by
  induction names generalizing table n with
  | nil => exact absurd rfl hnames
  | cons first rest ih =>
      cases rest with
      | nil =>
          rw [resolve] at h
          split at h
          · cases h
          · next hlookup =>
              obtain rfl := Except.error.inj h
              exact stopsAt_one hlookup
      | cons next rest =>
          rw [resolve] at h
          split at h
          · next inner hlookup =>
              split at h
              · cases h
              · next m hrest =>
                  obtain rfl := Except.error.inj h
                  exact (ih (List.cons_ne_nil next rest) hrest).cons hlookup
          · next hlookup =>
              obtain rfl := Except.error.inj h
              exact stopsAt_one hlookup

/-- A chain that leads to a group stops there. -/
theorem stopsAt_of_group {members : List (String × Operation σ)} (hnames : names ≠ [])
    (h : Leads table names (.group members)) : StopsAt table names names.length where
  pos := List.length_pos_iff.mpr hnames
  le := Nat.le_refl _
  before := by
    intro m hpos _
    exact h.take hpos
  stops := .inr ⟨rfl, members, h⟩

end Chains

/-! ## What a failure says -/

variable {registry : Registry σ} {name : String}

/-- What the failure of a name says.  For a name with a dot and none in front it is the
beginning at which the segments stop; that is the whole name or is followed in it by a
dot.  Any other name fails without a beginning. -/
structure FailsAt (registry : Registry σ) (name : String) (failedAt : Option String) : Prop where
  dotted : '.' ∈ name.toList → name.toList.head? ≠ some '.' →
    ∃ n front, StopsAt registry.entries (Path.segments name) n ∧
      front = Path.join ((Path.segments name).take n) ∧
      (front = name ∨ ∃ rest, name = front ++ "." ++ rest) ∧ failedAt = some front
  plain : '.' ∉ name.toList ∨ name.toList.head? = some '.' → failedAt = none

theorem failsAt_of_dotted (hdotted : Path.isDotted name = true) {n : Nat}
    (h : StopsAt registry.entries (Path.segments name) n) :
    registry.FailsAt name (some (Path.join ((Path.segments name).take n))) := by
  obtain ⟨hdot, hhead⟩ := Path.isDotted_iff.mp hdotted
  have hfront := Path.join_take_eq_or (Path.segments name) h.pos
  rw [Path.join_segments] at hfront
  constructor
  · intro _ _
    exact ⟨n, _, h, rfl, hfront, rfl⟩
  · intro hplain
    rcases hplain with hnone | hfirst
    · exact absurd hdot hnone
    · exact absurd hfirst hhead

theorem failsAt_of_plain (hplain : Path.isDotted name = false) : registry.FailsAt name none := by
  constructor
  · intro hdot hhead
    rw [Path.isDotted_iff.mpr ⟨hdot, hhead⟩] at hplain
    cases hplain
  · intro _
    rfl

/-- A name that calls nothing fails where its segments stop. -/
theorem exists_failsAt (hown : ∀ call, ¬registry.Calls name call) :
    ∃ failedAt, registry.FailsAt name failedAt ∧
      ∀ data args, registry.invoke name data args = .fail (.unrecognized name failedAt) := by
  have hfree : registry.Free name := by
    rcases registry.entry_or_free name with ⟨entry, call, hget, hruns⟩ | hfree
    · exact absurd (.entry hget hruns) (hown call)
    · exact hfree
  cases hdotted : Path.isDotted name with
  | false => exact ⟨none, failsAt_of_plain hdotted, hfree.invoke_plain hdotted⟩
  | true =>
      have hnames := Path.segments_ne_nil name
      cases hresolve : resolve registry.entries (Path.segments name) with
      | ok operation =>
          have hleads := resolve_eq_ok_iff.mp hresolve
          rcases operation.runs_or_group with ⟨call, hruns⟩ | ⟨members, rfl⟩
          · exact absurd (.leaf hfree hdotted hleads hruns) (hown call)
          · have hfails := failsAt_of_dotted hdotted (stopsAt_of_group hnames hleads)
            rw [List.take_length, Path.join_segments] at hfails
            refine ⟨some name, hfails, fun data args => ?_⟩
            rw [hfree.invoke_dotted hdotted, invokeDotted_of_group hleads]
      | error n =>
          have hfails := failsAt_of_dotted hdotted (stopsAt_of_resolve hnames hresolve)
          refine ⟨_, hfails, fun data args => ?_⟩
          rw [hfree.invoke_dotted hdotted]
          simp only [invokeDotted, hresolve]

/-- Invoking a name is a call, or else the name calls nothing and the failure names it whole
and says where its segments stop. -/
theorem calls_or_failsAt (registry : Registry σ) (name : String) :
    (∃ call, registry.Calls name call ∧
      ∀ data args, registry.invoke name data args = call data args) ∨
    (∀ call, ¬registry.Calls name call) ∧
      ∃ failedAt, registry.FailsAt name failedAt ∧
        ∀ data args, registry.invoke name data args = .fail (.unrecognized name failedAt) := by
  rcases registry.calls_or_unrecognized name with hcalls | ⟨hown, -⟩
  · exact .inl hcalls
  · exact .inr ⟨hown, exists_failsAt hown⟩

/-- An empty segment is followed like any other. -/
example : ((empty : Registry Unit).insert "math" (.group [])).invoke "math..add" .null [] =
    .fail (.unrecognized "math..add" (some "math.")) := by
  rfl

end DataRules.Registry
