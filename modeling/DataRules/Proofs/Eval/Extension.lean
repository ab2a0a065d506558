import DataRules.Proofs.Eval.Dispatch

set_option autoImplicit false

/-!
# Extension: what more operators change

One registry extends another when every call that does not end alike under the
two fails under the smaller one, at once and with nothing logged.  Evaluation
stops at the first error, so a rule either ends alike under both, or the run
under the smaller registry is cut short by the error of such a call and its log
is the front of the other log.  Registering an operator under a new name without
a dot extends a registry; a dotted name may take a member of a group out of
reach.
-/

namespace DataRules.Registry

variable {σ : Type}

/-- A call under `registry` that does not end as under `registry'` fails at once,
with nothing logged. -/
def ExtendedBy (registry registry' : Registry σ) : Prop :=
  ∀ name data args, registry.invoke name data args = registry'.invoke name data args ∨
    ∃ error, registry.invoke name data args = .fail error

/-- The error is that of a call, of an operator that `rule` mentions, which fails
under `registry` and ends in another way under `registry'`. -/
def SeparatedBy (registry registry' : Registry σ) (rule : Value) (error : Error) : Prop :=
  ∃ name data args, rule.Mentions name ∧ Keyword.ofName? name = none ∧
    registry.invoke name data args = .fail error ∧ registry'.invoke name data args ≠ .fail error

/-! ## Evaluation under an extension -/

/-- The two evaluations are in step, up to an error that separates the registries. -/
theorem apply_inStep {registry registry' : Registry σ} (h : registry.ExtendedBy registry')
    (rule data : Value) :
    (Lifting.inStep σ (fun _ => True) (registry.SeparatedBy registry' rule)).Rel (· = ·)
      (registry.apply rule data) (registry'.apply rule data) := by
  refine apply_alike ?_ data
  intro name hname hkeyword context args
  by_cases heq : registry.invoke name context args = registry'.invoke name context args
  · rw [heq]
    exact Eval.inStep_self fun _ _ _ => trivial
  · obtain ⟨error, herror⟩ := (h name context args).resolve_left heq
    have hother : registry'.invoke name context args ≠ .fail error := by
      intro hsame
      exact heq (herror.trans hsame.symm)
    intro state
    rw [herror]
    exact .cut ⟨name, context, args, hname, hkeyword, herror, hother⟩ (List.nil_prefix)

/-- A rule ends alike under a registry and under an extension of it, or it fails
under the smaller registry with the error of a call that the two make
differently, having logged the front of what is logged under the extension.  So
what succeeds is unchanged under an extension. -/
theorem apply_of_extendedBy {registry registry' : Registry σ} (h : registry.ExtendedBy registry')
    (rule data : Value) (state : σ) :
    ((registry.apply rule data).run state = (registry'.apply rule data).run state ∨
      ∃ error, registry.SeparatedBy registry' rule error ∧
        ((registry.apply rule data).run state).1.result = .error error ∧
        ((registry.apply rule data).run state).1.log <+:
          ((registry'.apply rule data).run state).1.log) ∧
    ∀ v, ((registry.apply rule data).run state).1.result = .ok v →
      (registry'.apply rule data).run state = (registry.apply rule data).run state := by
  have hends := apply_inStep h rule data state
  generalize (registry.apply rule data).run state = ending,
    (registry'.apply rule data).run state = ending' at hends
  cases hends with
  | done hvalue => exact ⟨.inl (by rw [hvalue]), fun _ _ => by rw [hvalue]⟩
  | failed _ => exact ⟨.inl rfl, fun _ _ => rfl⟩
  | @cut error log _ _ hcut hlog => exact ⟨.inr ⟨error, hcut, rfl, hlog⟩, fun _ hok => by cases hok⟩

/-! ## Registering an operator -/

/-- With one more entry, a chain of names leads where it led before, unless it
led nowhere. -/
theorem resolve_insert {entries : List (String × Operation σ)} {name : String}
    (hnew : Table.lookup name entries = none) (operation : Operation σ) (names : List String) :
    resolve (Table.insert name operation entries) names = resolve entries names ∨
      ∃ n, resolve entries names = .error n := by
  cases names with
  | nil => exact .inl rfl
  | cons first rest =>
      by_cases hfirst : name = first
      · subst hfirst
        refine .inr ⟨1, ?_⟩
        cases rest with
        | nil => simp only [resolve, hnew]
        | cons next rest => simp only [resolve, hnew]
      · have hsame := Table.lookup_insert_of_ne hfirst operation entries
        refine .inl ?_
        cases rest with
        | nil => simp only [resolve, hsame]
        | cons next rest => simp only [resolve, hsame]

/-- An operator under a new name without a dot extends the registry. -/
theorem extendedBy_insert {registry : Registry σ} {name : String}
    (hnew : registry.get? name = none) (hdot : Path.isDotted name = false)
    (operation : Operation σ) : registry.ExtendedBy (registry.insert name operation) := by
  intro other data args
  by_cases hname : name = other
  · subst hname
    refine .inr ⟨.unrecognized name none, ?_⟩
    simp only [invoke, hnew, hdot, Option.bind_none, Bool.false_eq_true, if_false]
  · have hget := get?_insert_of_ne registry hname operation
    unfold invoke
    rw [hget]
    split
    · exact .inl rfl
    · split
      · unfold invokeDotted
        rcases resolve_insert hnew operation (Path.segments other) with hsame | ⟨n, herror⟩
        · exact .inl (by simp only [insert, hsame])
        · refine .inr ⟨.unrecognized other (some (Path.join ((Path.segments other).take n))), ?_⟩
          simp only [herror]
      · exact .inl rfl

/-- A registry with one operator, which logs its argument. -/
def noting : Registry Unit := empty.insert "note" (.function Builtin.log)

/-- Without the operator `sum`, the rule fails where `sum` is called, and what it
noted before stays in the log. -/
theorem apply_of_extendedBy_noting :
    noting.ExtendedBy (noting.insert "sum" (.function fun _ => pure .null)) ∧
    (noting.apply (.object [("and", .list [.object [("note", .bool true)],
        .object [("sum", .list [])]])]) .null).run () =
      (⟨.error (.unrecognized "sum" none), [.bool true]⟩, ()) ∧
    ∃ error, noting.SeparatedBy (noting.insert "sum" (.function fun _ => pure .null))
      (.object [("and", .list [.object [("note", .bool true)], .object [("sum", .list [])]])])
      error := by
  have h : noting.ExtendedBy (noting.insert "sum" (.function fun _ => pure .null)) :=
    extendedBy_insert rfl (by decide) _
  have hrun : (noting.apply (.object [("and", .list [.object [("note", .bool true)],
      .object [("sum", .list [])]])]) .null).run () =
      (⟨.error (.unrecognized "sum" none), [.bool true]⟩, ()) := rfl
  refine ⟨h, hrun, ?_⟩
  rcases (apply_of_extendedBy h _ .null ()).1 with hsame | ⟨error, hseparated, -⟩
  · rw [hrun] at hsame
    cases hsame
  · exact ⟨error, hseparated⟩

end DataRules.Registry
