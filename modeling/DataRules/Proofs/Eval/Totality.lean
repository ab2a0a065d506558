import DataRules.Proofs.Eval.Builtins
import DataRules.Proofs.Eval.Checked

set_option autoImplicit false

/-!
# Totality: the built-in operations never fail

With the built-in operations alone, the only way a rule can fail is to call an
operator that is neither built in nor the evaluator's own, and that operator is
one that the rule mentions.  A rule without such an operator has a value on every
data context, however many arguments of whatever kind its operators are given.
-/

namespace DataRules.Registry

variable {σ : Type}

/-- The error says that an operator is not known, which `rule` mentions and which
is neither built in nor the evaluator's. -/
def Unknown (rule : Value) (error : Error) : Prop :=
  ∃ name failedAt, error = .unrecognized name failedAt ∧ rule.Mentions name ∧
    name ∉ Builtin.names ∧ name ∉ Keyword.names

/-- A call that the rule makes ends with a value or with such an error. -/
theorem invoke_builtins_inStep {rule : Value} {name : String} (hname : rule.Mentions name)
    (hkeyword : Keyword.ofName? name = none) :
    InvokesAlike (Lifting.inStep σ (Unknown rule) fun _ => False) builtins builtins name := by
  intro data args
  refine Eval.inStep_self ?_
  intro state error herror
  by_cases hbuiltin : name ∈ Builtin.names
  · obtain ⟨body, hmem, hcall⟩ := invoke_builtins_of_mem (σ := σ) hbuiltin
    obtain ⟨v, log, hrun⟩ := Builtin.run_of_mem_catalog hmem args state
    rw [hcall, hrun] at herror
    cases herror
  · obtain ⟨failedAt, hcall⟩ := invoke_builtins_of_not_mem (σ := σ) hbuiltin
    rw [hcall] at herror
    cases herror
    exact ⟨name, failedAt, rfl, hname, hbuiltin, Keyword.ofName?_eq_none_iff.mp hkeyword⟩

theorem unknown_of_apply_error {rule data : Value} {state : σ} {error : Error}
    (h : (((builtins : Registry σ).apply rule data).run state).1.result = .error error) :
    Unknown rule error := by
  have hstep : (Lifting.inStep σ (Unknown rule) fun _ => False).Rel (· = ·)
      ((builtins : Registry σ).apply rule data) ((builtins : Registry σ).apply rule data) :=
    apply_alike (fun _ hname hkeyword => invoke_builtins_inStep hname hkeyword) data
  exact ((hstep state).shared_or_cut h).resolve_right id

/-- On the built-in operations, a rule fails only for an operator that it mentions
and that is neither built in nor the evaluator's.  So a rule without one has a
value on every data context.  No stretch, count or position taken on the way is
out of range. -/
theorem apply_builtins_total :
    (∀ (rule data : Value) (state : σ) (error : Error),
      (((builtins : Registry σ).apply rule data).run state).1.result = .error error →
      ∃ name failedAt, error = .unrecognized name failedAt ∧ rule.Mentions name ∧
        name ∉ Builtin.names ∧ name ∉ Keyword.names) ∧
    (∀ rule : Value,
      (∀ name, rule.Mentions name → name ∈ Builtin.names ∨ name ∈ Keyword.names) →
      ∀ (data : Value) (state : σ),
        ∃ v, (((builtins : Registry σ).apply rule data).run state).1.result = .ok v) ∧
    Checked.InRange σ := by
  refine ⟨fun _ _ _ _ h => unknown_of_apply_error h, ?_, Checked.inRange σ⟩
  intro rule hknown data state
  cases hresult : (((builtins : Registry σ).apply rule data).run state).1.result with
  | ok v => exact ⟨v, rfl⟩
  | error error =>
      obtain ⟨name, _, _, hname, hbuiltin, hkeyword⟩ := unknown_of_apply_error hresult
      exact absurd (hknown name hname) (not_or.mpr ⟨hbuiltin, hkeyword⟩)

end DataRules.Registry
