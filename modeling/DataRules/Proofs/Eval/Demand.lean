import DataRules.Proofs.Eval.Outcomes
import DataRules.Proofs.Eval.Search

set_option autoImplicit false

/-!
# Demand: what control and iteration ask for

Control and iteration do not evaluate all they are given.  `asked` and
`askedByChoice` say, apart from the evaluator, which arguments or items are
evaluated: up to the one that settles the matter.  The log of each operator is
the logs of those one after another, so each of them is evaluated once, in that
order, and nothing else is.

All this is about pure evaluations, which keep no state of the host: such an
evaluation has one outcome, whatever was evaluated before.
-/

namespace DataRules

variable {α β : Type}

/-! ## Outcomes of pure evaluations -/

namespace Outcome

/-- The outcome of an evaluation that goes on with the value of the first one. -/
def andThen (outcome : Outcome α) (next : α → Outcome β) : Outcome β :=
  match outcome with
  | ⟨.ok a, log⟩ => ⟨(next a).result, log ++ (next a).log⟩
  | ⟨.error error, log⟩ => ⟨.error error, log⟩

theorem andThen_of_ok {outcome : Outcome α} {a : α} (h : outcome.result = .ok a)
    (next : α → Outcome β) :
    outcome.andThen next = ⟨(next a).result, outcome.log ++ (next a).log⟩ := by
  rcases outcome with ⟨result, log⟩
  obtain rfl : result = .ok a := h
  rfl

theorem andThen_of_error {outcome : Outcome α} {error : Error} (h : outcome.result = .error error)
    (next : α → Outcome β) : outcome.andThen next = ⟨.error error, outcome.log⟩ := by
  rcases outcome with ⟨result, log⟩
  obtain rfl : result = .error error := h
  rfl

/-- The evaluation failed, or gave a value that meets the condition. -/
def settles (holds : Value → Bool) (outcome : Outcome Value) : Bool :=
  match outcome.result with
  | .ok v => holds v
  | .error _ => true

/-- The evaluation gave a value with the truth `b`. -/
def Gives (b : Bool) (outcome : Outcome Value) : Prop :=
  ∃ v, outcome.result = .ok v ∧ v.isTruthy = b

end Outcome

namespace Eval

/-- How a pure evaluation ends. -/
def outcome (m : Eval Unit α) : Outcome α := (m.run ()).1

theorem outcome_pure (a : α) : (pure a : Eval Unit α).outcome = ⟨.ok a, []⟩ := rfl

theorem outcome_bind (m : Eval Unit α) (f : α → Eval Unit β) :
    (m >>= f).outcome = m.outcome.andThen fun a => (f a).outcome := by
  unfold outcome
  rcases h : m.run () with ⟨⟨error | a, log⟩, state⟩
  · rw [run_bind_of_error h]
    rfl
  · rw [run_bind_of_ok h]
    rfl

/-- What is made of a value without evaluating anything leaves no log. -/
theorem log_bind_pure (m : Eval Unit α) (f : α → β) :
    (m >>= fun a => pure (f a)).outcome.log = m.outcome.log := by
  rw [outcome_bind]
  cases h : m.outcome.result with
  | ok a => rw [Outcome.andThen_of_ok h, outcome_pure, List.append_nil]
  | error error => rw [Outcome.andThen_of_error h]

theorem outcome_bind_pure {m : Eval Unit α} {a : α} {log : List Json} (h : m.outcome = ⟨.ok a, log⟩)
    (f : α → β) : (m >>= fun a => pure (f a)).outcome = ⟨.ok (f a), log⟩ := by
  rw [outcome_bind, h, Outcome.andThen, outcome_pure, List.append_nil]

end Eval

/-- The value has the truth `b`. -/
def Value.hasTruth (b : Bool) (v : Value) : Bool := v.isTruthy == b

/-- No value meets the condition. -/
def Value.never (_ : Value) : Bool := false

/-! ## What is evaluated of a list

`ends` says how the evaluation of each member of the list ends. -/

section Asked

variable (ends : α → Outcome Value)

/-- The members up to the first one that fails or has a value that meets the
condition, that one included. -/
def asked (holds : Value → Bool) : List α → List α
  | [] => []
  | a :: as => a :: if (ends a).settles holds then [] else asked holds as

/-- Conditions by turns with consequents: the conditions up to the first one that
fails or is true, and then its consequent; a member left over is the last one. -/
def askedByChoice : List α → List α
  | [] => []
  | [otherwise] => [otherwise]
  | condition :: consequent :: rest =>
      condition :: match (ends condition).result with
        | .ok v => if v.isTruthy then [consequent] else askedByChoice rest
        | .error _ => []

/-- The logs of the members one after another. -/
def logs (as : List α) : List Json := as.flatMap fun a => (ends a).log

variable {ends}

theorem asked_map (holds : Value → Bool) (ends : β → Outcome Value) (f : α → β) (as : List α) :
    asked ends holds (as.map f) = (asked (fun a => ends (f a)) holds as).map f := by
  induction as with
  | nil => rfl
  | cons a as ih =>
      rw [List.map_cons, asked, asked, ih, List.map_cons]
      split <;> rfl

theorem askedByChoice_map (ends : β → Outcome Value) (f : α → β) : (as : List α) →
    askedByChoice ends (as.map f) = (askedByChoice (fun a => ends (f a)) as).map f
  | [] => rfl
  | [_] => rfl
  | condition :: consequent :: rest => by
      rw [List.map_cons, List.map_cons, askedByChoice, askedByChoice, List.map_cons,
        askedByChoice_map ends f rest]
      split
      · split <;> rfl
      · rfl

theorem logs_map (ends : β → Outcome Value) (f : α → β) (as : List α) :
    logs ends (as.map f) = logs (fun a => ends (f a)) as := by
  rw [logs, List.flatMap_map, logs]

theorem asked_isPrefixOf (holds : Value → Bool) (as : List α) : asked ends holds as <+: as := by
  induction as with
  | nil => exact List.prefix_refl []
  | cons a as ih =>
      rw [asked, List.prefix_cons_inj]
      split
      · exact List.nil_prefix
      · exact ih

/-- When no member settles the matter, all are evaluated. -/
theorem asked_eq_self {holds : Value → Bool} {as : List α}
    (h : ∀ a ∈ as, (ends a).settles holds = false) : asked ends holds as = as := by
  induction as with
  | nil => rfl
  | cons a as ih =>
      rw [List.forall_mem_cons] at h
      obtain ⟨ha, has⟩ := h
      rw [asked, ha, if_neg Bool.false_ne_true, ih has]

theorem askedByChoice_sublist : (as : List α) → (askedByChoice ends as).Sublist as
  | [] => List.Sublist.refl []
  | [_] => List.Sublist.refl _
  | condition :: consequent :: rest => by
      rw [askedByChoice, List.cons_sublist_cons]
      split
      · split
        · exact List.singleton_sublist.mpr List.mem_cons_self
        · exact (askedByChoice_sublist rest).cons consequent
      · exact List.nil_sublist _

/-- One step of a search: it ends with an error, and with a value that meets the
condition if nothing else is evaluated then, and goes on otherwise. -/
theorem log_bind_asked {holds : Value → Bool} {a : α} {as : List α} {m : Eval Unit Value}
    {f : Value → Eval Unit β} (hm : m.outcome = ends a)
    (hstop : ∀ v, holds v = true → (f v).outcome.log = [])
    (hgo : ∀ v, holds v = false → (f v).outcome.log = logs ends (asked ends holds as)) :
    (m >>= f).outcome.log = logs ends (asked ends holds (a :: as)) := by
  rw [Eval.outcome_bind, asked, logs, List.flatMap_cons, Outcome.settles, hm]
  cases ha : (ends a).result with
  | error error => rw [Outcome.andThen_of_error ha, if_pos rfl, List.flatMap_nil, List.append_nil]
  | ok v =>
      rw [Outcome.andThen_of_ok ha]
      cases hv : holds v with
      | true => rw [if_pos hv, hstop v hv, List.flatMap_nil]
      | false => rw [if_neg (Bool.eq_false_iff.mp hv), hgo v hv, logs]

end Asked

/-! ## Arguments and items -/

namespace Control

variable {data : Value} {body : Meaning Unit}

/-- The outcome of a meaning on a data context. -/
abbrev endsOn (data : Value) (meaning : Meaning Unit) : Outcome Value := (meaning data).outcome

/-- The outcome of a body on an item. -/
abbrev endsOf (body : Meaning Unit) (item : Value) : Outcome Value := (body item).outcome

theorem log_evaluateAll (args : List (Meaning Unit)) :
    (evaluateAll args data).outcome.log =
      logs (endsOn data) (asked (endsOn data) Value.never args) := by
  unfold evaluateAll
  induction args with
  | nil => rfl
  | cons arg args ih =>
      rw [List.mapM_cons]
      refine log_bind_asked rfl (fun _ hnever => absurd hnever Bool.false_ne_true) fun v _ => ?_
      rw [Eval.log_bind_pure, ih]

theorem log_firstWith (b : Bool) : (args : List (Meaning Unit)) →
    (firstWith b args data).outcome.log =
      logs (endsOn data) (asked (endsOn data) (Value.hasTruth b) args)
  | [] => rfl
  | [last] => by
      rw [asked, asked, ite_self, firstWith, logs, List.flatMap_singleton]
  | arg :: next :: rest => by
      rw [firstWith]
      refine log_bind_asked rfl (fun v hv => ?_) fun v hv => ?_
      · rw [if_pos (beq_iff_eq.mp hv), Eval.outcome_pure]
      · rw [if_neg (beq_eq_false_iff_ne.mp hv), log_firstWith b (next :: rest)]

theorem log_choose : (args : List (Meaning Unit)) →
    (choose args data).outcome.log = logs (endsOn data) (askedByChoice (endsOn data) args)
  | [] => rfl
  | [otherwise] => by
      rw [choose, askedByChoice, logs, List.flatMap_singleton]
  | condition :: consequent :: rest => by
      rw [choose, Eval.outcome_bind, askedByChoice, logs, List.flatMap_cons]
      cases hcondition : (condition data).outcome.result with
      | error error =>
          rw [Outcome.andThen_of_error hcondition, List.flatMap_nil, List.append_nil]
      | ok v =>
          rw [Outcome.andThen_of_ok hcondition]
          dsimp only
          split
          · rw [List.flatMap_singleton]
          · rw [log_choose rest, logs]

theorem log_search (b : Bool) (items : List Value) :
    (search b body items).outcome.log =
      logs (endsOf body) (asked (endsOf body) (Value.hasTruth b) items) := by
  induction items with
  | nil => rfl
  | cons item items ih =>
      rw [search]
      refine log_bind_asked rfl (fun v hv => ?_) fun v hv => ?_
      · rw [if_pos (beq_iff_eq.mp hv), Eval.outcome_pure]
      · rw [if_neg (beq_eq_false_iff_ne.mp hv), ih]

theorem log_mapItems (items : List Value) :
    (mapItems body items).outcome.log =
      logs (endsOf body) (asked (endsOf body) Value.never items) := by
  induction items with
  | nil => rfl
  | cons item items ih =>
      rw [mapItems]
      refine log_bind_asked rfl (fun _ hnever => absurd hnever Bool.false_ne_true) fun v _ => ?_
      rw [Eval.log_bind_pure, ih]

theorem log_filterItems (items : List Value) :
    (filterItems body items).outcome.log =
      logs (endsOf body) (asked (endsOf body) Value.never items) := by
  induction items with
  | nil => rfl
  | cons item items ih =>
      rw [filterItems]
      refine log_bind_asked rfl (fun _ hnever => absurd hnever Bool.false_ne_true) fun v _ => ?_
      rw [Eval.log_bind_pure, ih]

/-- The contexts on which a reduction evaluates its body: each item in turn, with
the accumulator that the one before gave. -/
def reductions (ends : Value → Outcome Value) : List Value → Value → List Value
  | [], _ => []
  | item :: items, accumulator =>
      reduction item accumulator :: match (ends (reduction item accumulator)).result with
        | .ok v => reductions ends items v
        | .error _ => []

theorem log_reduceItems (items : List Value) (accumulator : Value) :
    (reduceItems body items accumulator).outcome.log =
      logs (endsOf body) (reductions (endsOf body) items accumulator) := by
  induction items generalizing accumulator with
  | nil => rfl
  | cons item items ih =>
      rw [reduceItems, Eval.outcome_bind, reductions, logs, List.flatMap_cons]
      cases hitem : (body (reduction item accumulator)).outcome.result with
      | error error => rw [Outcome.andThen_of_error hitem, List.flatMap_nil, List.append_nil]
      | ok v => rw [Outcome.andThen_of_ok hitem, ih v, logs]

/-- A reduction goes over its items in order, once each. -/
theorem reductions_eq_zipWith (ends : Value → Outcome Value) (items : List Value)
    (accumulator : Value) :
    ∃ accumulators, accumulators.length ≤ items.length ∧
      reductions ends items accumulator = List.zipWith reduction items accumulators := by
  induction items generalizing accumulator with
  | nil => exact ⟨[], Nat.le_refl 0, rfl⟩
  | cons item items ih =>
      rw [reductions]
      split
      · next v _ =>
          obtain ⟨accumulators, hlength, hrest⟩ := ih v
          exact ⟨accumulator :: accumulators, Nat.succ_le_succ hlength, by
            rw [hrest, List.zipWith_cons_cons]⟩
      · exact ⟨[accumulator], Nat.succ_le_succ (Nat.zero_le _), by simp⟩

/-! ## Where the first decision falls -/

/-- A connective ends with the first argument that decides it. -/
theorem outcome_firstWith {b : Bool} {front : List (Meaning Unit)} {arg : Meaning Unit}
    (hfront : ∀ x ∈ front, (endsOn data x).Gives !b) (harg : (endsOn data arg).Gives b)
    (back : List (Meaning Unit)) :
    (firstWith b (front ++ arg :: back) data).outcome =
      ⟨(endsOn data arg).result, logs (endsOn data) (front ++ [arg])⟩ := by
  induction front with
  | nil =>
      obtain ⟨v, hv, htruth⟩ := harg
      cases back with
      | nil => rw [List.nil_append, firstWith, logs, List.flatMap_singleton]
      | cons next rest =>
          rw [List.nil_append, firstWith, Eval.outcome_bind, Outcome.andThen_of_ok hv, if_pos htruth,
            Eval.outcome_pure, logs, List.nil_append, List.flatMap_singleton, List.append_nil, hv]
  | cons x front ih =>
      rw [List.forall_mem_cons] at hfront
      obtain ⟨⟨v, hv, htruth⟩, hfront⟩ := hfront
      have hgo : ¬v.isTruthy = b := by simp [htruth]
      obtain ⟨next, rest, hrest⟩ : ∃ next rest, front ++ arg :: back = next :: rest :=
        List.exists_cons_of_ne_nil (by simp)
      have hnext := ih hfront
      rw [hrest] at hnext
      rw [List.cons_append, hrest, firstWith, Eval.outcome_bind, Outcome.andThen_of_ok hv,
        if_neg hgo, hnext]
      rfl

/-- A choice ends with the consequent of the first true condition. -/
theorem outcome_choose {pairs : List (Meaning Unit × Meaning Unit)}
    {condition consequent : Meaning Unit}
    (hpairs : ∀ pair ∈ pairs, (endsOn data pair.1).Gives false)
    (hcondition : (endsOn data condition).Gives true) (rest : List (Meaning Unit)) :
    (choose (pairs.flatMap (fun pair => [pair.1, pair.2]) ++ condition :: consequent :: rest)
      data).outcome =
      ⟨(endsOn data consequent).result,
        logs (endsOn data) (pairs.map Prod.fst ++ [condition, consequent])⟩ := by
  induction pairs with
  | nil =>
      obtain ⟨v, hv, htruth⟩ := hcondition
      rw [List.flatMap_nil, List.nil_append, choose, Eval.outcome_bind, Outcome.andThen_of_ok hv,
        if_pos htruth]
      simp [logs]
  | cons pair pairs ih =>
      rw [List.forall_mem_cons] at hpairs
      obtain ⟨⟨v, hv, htruth⟩, hpairs⟩ := hpairs
      have hgo : ¬v.isTruthy = true := Bool.eq_false_iff.mp htruth
      rw [List.flatMap_cons, List.append_assoc, List.cons_append, List.cons_append,
        List.nil_append, choose, Eval.outcome_bind, Outcome.andThen_of_ok hv, if_neg hgo, ih hpairs]
      rfl

/-- The search of a quantifier ends with the first item that decides it. -/
theorem outcome_search {b : Bool} {front : List Value} {item : Value}
    (hfront : ∀ x ∈ front, (endsOf body x).Gives !b) (hitem : (endsOf body item).Gives b)
    (back : List Value) :
    (search b body (front ++ item :: back)).outcome =
      ⟨.ok true, logs (endsOf body) (front ++ [item])⟩ := by
  induction front with
  | nil =>
      obtain ⟨v, hv, htruth⟩ := hitem
      rw [List.nil_append, search, Eval.outcome_bind, Outcome.andThen_of_ok hv, if_pos htruth,
        Eval.outcome_pure, logs, List.nil_append, List.flatMap_singleton, List.append_nil]
  | cons x front ih =>
      rw [List.forall_mem_cons] at hfront
      obtain ⟨⟨v, hv, htruth⟩, hfront⟩ := hfront
      have hgo : ¬v.isTruthy = b := by simp [htruth]
      rw [List.cons_append, search, Eval.outcome_bind, Outcome.andThen_of_ok hv, if_neg hgo,
        ih hfront]
      rfl

/-! ## Iterations -/

/-- The items that an iteration goes over, given how its source ends. -/
def sourceItems (source : Outcome Value) : List Value :=
  match source.result with
  | .ok (.list items) => items
  | _ => []

/-- An iteration whose source is a list ends as its items say. -/
theorem outcome_iterate {source : Eval Unit Value} {onItems : List Value → Eval Unit Value}
    {otherwise : Value} {items : List Value} (hsource : source.outcome.result = .ok (.list items)) :
    (source >>= iterate onItems otherwise).outcome =
      ⟨(onItems items).outcome.result, source.outcome.log ++ (onItems items).outcome.log⟩ := by
  rw [Eval.outcome_bind, Outcome.andThen_of_ok hsource]
  rfl

/-- An iteration evaluates its source, and then what its items ask for. -/
theorem log_iterate {source : Eval Unit Value} {onItems : List Value → Eval Unit Value}
    {otherwise : Value} (hempty : (onItems []).outcome.log = []) :
    (source >>= iterate onItems otherwise).outcome.log =
      source.outcome.log ++ (onItems (sourceItems source.outcome)).outcome.log := by
  rw [Eval.outcome_bind, sourceItems]
  cases hsource : source.outcome.result with
  | error error => rw [Outcome.andThen_of_error hsource, hempty, List.append_nil]
  | ok v =>
      rw [Outcome.andThen_of_ok hsource]
      cases v with
      | list items => rfl
      | _ => rw [hempty]; rfl

end Control

end DataRules
