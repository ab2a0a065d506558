import DataRules.Proofs.Eval.Outcomes

set_option autoImplicit false

/-!
# Logs: two evaluations that end alike and log differently

Two evaluations may end in the same way, and leave the host in the same state,
without writing the same log.  What is known of the two logs is a relation that
survives putting logs one after another: that both have as many entries, or that
the one is left of the other when entries are taken out.  Any such relation
lifts to evaluations.
-/

namespace DataRules

/-- A relation between logs that putting them one after another respects. -/
structure LogRelation where
  Rel : List Json → List Json → Prop
  refl : ∀ log, Rel log log
  append : ∀ {front front' back back' : List Json}, Rel front front' → Rel back back' →
    Rel (front ++ back) (front' ++ back')

namespace LogRelation

/-- The logs have as many entries. -/
def sameLength : LogRelation where
  Rel log log' := log.length = log'.length
  refl := fun _ => rfl
  append := fun hfront hback => by rw [List.length_append, List.length_append, hfront, hback]

/-- The first log is left when entries of the second are taken out. -/
def sublist : LogRelation where
  Rel := List.Sublist
  refl := List.Sublist.refl
  append := List.Sublist.append

end LogRelation

variable {σ α β : Type} {logs : LogRelation}

/-- Two evaluations ended alike, in one host state and with related logs. -/
inductive EndsAlike (logs : LogRelation) (r : α → β → Prop) :
    Outcome α × σ → Outcome β × σ → Prop where
  /-- both with a value -/
  | done {a : α} {b : β} {log log' : List Json} {state : σ} (hvalue : r a b)
      (hlog : logs.Rel log log') : EndsAlike logs r (⟨.ok a, log⟩, state) (⟨.ok b, log'⟩, state)
  /-- both with one error -/
  | failed {error : Error} {log log' : List Json} {state : σ} (hlog : logs.Rel log log') :
      EndsAlike logs r (⟨.error error, log⟩, state) (⟨.error error, log'⟩, state)

namespace EndsAlike

variable {γ δ : Type} {r : α → β → Prop} {s : γ → δ → Prop}

/-- Two evaluations that end alike, followed by two that do on related values. -/
theorem bind {m : Eval σ α} {n : Eval σ β} {f : α → Eval σ γ} {g : β → Eval σ δ} {state : σ}
    (h : EndsAlike logs r (m.run state) (n.run state))
    (hnext : ∀ a b, r a b → ∀ state, EndsAlike logs s ((f a).run state) ((g b).run state)) :
    EndsAlike logs s ((m >>= f).run state) ((n >>= g).run state) := by
  generalize hm : m.run state = first at h
  generalize hn : n.run state = second at h
  cases h with
  | @done a b log log' next hvalue hlog =>
      rw [Eval.run_bind_of_ok hm, Eval.run_bind_of_ok hn]
      generalize (f a).run next = first, (g b).run next = second, hnext a b hvalue next = h
      cases h with
      | done hvalue hmore => exact .done hvalue (logs.append hlog hmore)
      | failed hmore => exact .failed (logs.append hlog hmore)
  | failed hlog =>
      rw [Eval.run_bind_of_error hm, Eval.run_bind_of_error hn]
      exact .failed hlog

/-- The logs are related however the evaluations ended. -/
theorem log {first : Outcome α × σ} {second : Outcome β × σ}
    (h : EndsAlike logs r first second) : logs.Rel first.1.log second.1.log := by
  cases h with
  | done _ hlog => exact hlog
  | failed hlog => exact hlog

/-- With equal values, the results and the host states are the same. -/
theorem result_eq {first second : Outcome α × σ} (h : EndsAlike logs (· = ·) first second) :
    first.1.result = second.1.result ∧ first.2 = second.2 := by
  cases h with
  | done hvalue _ => exact ⟨congrArg Except.ok hvalue, rfl⟩
  | failed _ => exact ⟨rfl, rfl⟩

end EndsAlike

/-- Evaluations that end alike from every host state. -/
def Lifting.endsAlike (σ : Type) (logs : LogRelation) : Lifting σ σ where
  Rel r m n := ∀ state, EndsAlike logs r (m.run state) (n.run state)
  pure := fun h _ => .done h (logs.refl [])
  bind := fun h hnext state => (h state).bind hnext

/-- An evaluation ends like itself. -/
theorem Eval.endsAlike_self (m : Eval σ α) : (Lifting.endsAlike σ logs).Rel (· = ·) m m := by
  intro state
  generalize m.run state = ending
  rcases ending with ⟨⟨error | a, log⟩, next⟩
  · exact .failed (logs.refl log)
  · exact .done rfl (logs.refl log)

end DataRules
