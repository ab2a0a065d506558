import DataRules.Proofs.Eval.Lifting

set_option autoImplicit false

/-!
# Outcomes: two evaluations that run in step

Two evaluations that start in one host state run in step as long as they do the
same.  `Ends` says how such a pair may end: both with related values, both with
one error, or the first cut short by an error before the second.  Which errors
may end both, and which may cut the first one short, are parameters: with no
error of the second kind and equal values, evaluations in step are equal.
-/

namespace DataRules

variable {σ α β : Type} {shared cut : Error → Prop}

/-- How two evaluations that ran in step ended: with what outcome, and in which
host state. -/
inductive Ends (shared cut : Error → Prop) (r : α → β → Prop) :
    Outcome α × σ → Outcome β × σ → Prop where
  /-- both with a value -/
  | done {a : α} {b : β} {log : List Json} {state : σ} (hvalue : r a b) :
      Ends shared cut r (⟨.ok a, log⟩, state) (⟨.ok b, log⟩, state)
  /-- both with one error -/
  | failed {error : Error} {log : List Json} {state : σ} (hshared : shared error) :
      Ends shared cut r (⟨.error error, log⟩, state) (⟨.error error, log⟩, state)
  /-- the first with an error, its log being the front of the second one's -/
  | cut {error : Error} {log : List Json} {state : σ} {second : Outcome β × σ}
      (hcut : cut error) (hlog : log <+: second.1.log) :
      Ends shared cut r (⟨.error error, log⟩, state) second

namespace Eval

theorem run_bind_of_ok {m : Eval σ α} {f : α → Eval σ β} {state next : σ} {a : α}
    {log : List Json} (h : m.run state = (⟨.ok a, log⟩, next)) :
    (m >>= f).run state =
      (⟨((f a).run next).1.result, log ++ ((f a).run next).1.log⟩, ((f a).run next).2) := by
  simp only [run] at h ⊢
  simp only [bind_def, andThen, h]

theorem run_bind_of_error {m : Eval σ α} {f : α → Eval σ β} {state next : σ} {error : Error}
    {log : List Json} (h : m.run state = (⟨.error error, log⟩, next)) :
    (m >>= f).run state = (⟨.error error, log⟩, next) := by
  simp only [run] at h ⊢
  simp only [bind_def, andThen, h]

/-- Sequencing only adds to the log. -/
theorem log_prefix_bind (m : Eval σ α) (f : α → Eval σ β) (state : σ) :
    (m.run state).1.log <+: ((m >>= f).run state).1.log := by
  rcases h : m.run state with ⟨⟨error | a, log⟩, next⟩
  · have hrun : ((m >>= f).run state).1.log = log := by rw [run_bind_of_error h]
    exact hrun ▸ List.prefix_refl log
  · rw [run_bind_of_ok h]
    exact List.prefix_append log _

end Eval

namespace Ends

variable {γ δ : Type} {r : α → β → Prop} {s : γ → δ → Prop}

/-- Two evaluations in step, followed by two that are in step on related values. -/
theorem bind {m : Eval σ α} {n : Eval σ β} {f : α → Eval σ γ} {g : β → Eval σ δ} {state : σ}
    (h : Ends shared cut r (m.run state) (n.run state))
    (hnext : ∀ a b, r a b → ∀ state, Ends shared cut s ((f a).run state) ((g b).run state)) :
    Ends shared cut s ((m >>= f).run state) ((n >>= g).run state) := by
  generalize hm : m.run state = first at h
  generalize hn : n.run state = second at h
  cases h with
  | @done a b log next hvalue =>
      rw [Eval.run_bind_of_ok hm, Eval.run_bind_of_ok hn]
      generalize (f a).run next = first, (g b).run next = second, hnext a b hvalue next = h
      cases h with
      | done hvalue => exact .done hvalue
      | failed hshared => exact .failed hshared
      | cut hcut hlog =>
          exact .cut hcut ((List.prefix_append_right_inj log).mpr hlog)
  | failed hshared =>
      rw [Eval.run_bind_of_error hm, Eval.run_bind_of_error hn]
      exact .failed hshared
  | cut hcut hlog =>
      rw [Eval.run_bind_of_error hm]
      refine .cut hcut (hlog.trans ?_)
      rw [← hn]
      exact Eval.log_prefix_bind n g state

/-- The error of the first evaluation is one of the two kinds. -/
theorem shared_or_cut {first : Outcome α × σ} {second : Outcome β × σ} {error : Error}
    (h : Ends shared cut r first second) (herror : first.1.result = .error error) :
    shared error ∨ cut error := by
  cases h with
  | done _ => cases herror
  | failed hshared =>
      obtain rfl := Except.error.inj herror
      exact .inl hshared
  | cut hcut _ =>
      obtain rfl := Except.error.inj herror
      exact .inr hcut

end Ends

/-- Evaluations in step from every host state. -/
def Lifting.inStep (σ : Type) (shared cut : Error → Prop) : Lifting σ σ where
  Rel r m n := ∀ state, Ends shared cut r (m.run state) (n.run state)
  pure := fun h _ => .done h
  bind := fun h hnext state => (h state).bind hnext

namespace Eval

/-- An evaluation is in step with itself when the errors it may end with are the
shared ones. -/
theorem inStep_self {m : Eval σ α}
    (h : ∀ state error, (m.run state).1.result = .error error → shared error) :
    (Lifting.inStep σ shared cut).Rel (· = ·) m m := by
  intro state
  have hshared := h state
  generalize m.run state = ending at hshared
  rcases ending with ⟨⟨error | a, log⟩, next⟩
  · exact .failed (hshared error rfl)
  · exact .done rfl

end Eval

/-- Evaluations that do the same from every host state. -/
abbrev Lifting.same (σ : Type) : Lifting σ σ :=
  Lifting.inStep σ (fun _ => True) (fun _ => False)

/-- Evaluations with the same value that do the same are equal. -/
theorem Lifting.same_iff {m n : Eval σ α} : (Lifting.same σ).Rel (· = ·) m n ↔ m = n := by
  constructor
  · intro h
    funext state
    have hends : Ends (fun _ => True) (fun _ => False) (· = ·) (m state) (n state) := h state
    generalize m state = first, n state = second at hends
    cases hends with
    | done hvalue => rw [hvalue]
    | failed _ => rfl
    | cut hcut _ => exact hcut.elim
  · rintro rfl
    exact Eval.inStep_self fun _ _ _ => trivial

end DataRules
