import DataRules.Proofs.Eval.Demand

set_option autoImplicit false

/-!
# Frugality: needed parts are evaluated once, in order, and no others

`Registry.visits` lists which rule an operation evaluates on which data context:
the arguments of a connective up to the one that settles it, the conditions of a
choice up to the first true one and then its consequent, the source of an
iteration, the initial value of a reduction, and then the body on one item after
another.  The log of an operation is the logs of its visits one after another,
whatever the operations of the engine are, so each visit is made once and in that
order.  What is not visited can be replaced by anything.

The engines are those of pure operations, which keep no state.
-/

namespace DataRules.Registry

open DataRules.Control

variable (registry : Registry Unit)

/-! ## What an operation visits -/

/-- How a rule ends on a data context. -/
def outcome (rule data : Value) : Outcome Value := (registry.apply rule data).outcome

/-- The evaluations that a reduction asks for: the source, the initial value, and the
body on one step after another. -/
def reductionVisits (source body initial data : Value) : List (Value × Value) :=
  match (registry.outcome source data).result, (registry.outcome initial data).result with
  | .ok _, .ok v =>
      (source, data) :: (initial, data) ::
        (reductions (registry.outcome body) (sourceItems (registry.outcome source data)) v).map
          fun context => (body, context)
  | .ok _, .error _ => [(source, data), (initial, data)]
  | .error _, _ => [(source, data)]

/-- The evaluations that an operation asks for, in order: each of them of a rule on
a data context.  An argument that is not given counts as null. -/
def visits (name : String) (args : List Value) (data : Value) : List (Value × Value) :=
  let source := args.getD 0 .null
  let body := args.getD 1 .null
  let items := sourceItems (registry.outcome source data)
  let ends := fun rule => registry.outcome rule data
  let onData := fun rules : List Value => rules.map fun rule => (rule, data)
  let onItems := fun contexts : List Value =>
    (source, data) :: contexts.map fun context => (body, context)
  match Keyword.ofName? name with
  | some .choose => onData (askedByChoice ends args)
  | some .conjunction => onData (asked ends (Value.hasTruth false) args)
  | some .disjunction => onData (asked ends (Value.hasTruth true) args)
  | some .map => onItems (asked (registry.outcome body) Value.never items)
  | some .filter => onItems (asked (registry.outcome body) Value.never items)
  | some .forAll => onItems (asked (registry.outcome body) (Value.hasTruth false) items)
  | some .forNone => onItems (asked (registry.outcome body) (Value.hasTruth true) items)
  | some .forSome => onItems (asked (registry.outcome body) (Value.hasTruth true) items)
  | some .reduce => registry.reductionVisits source body (args.getD 2 .null) data
  | some .var => onData (asked ends Value.never args)
  | some .missing => onData (asked ends Value.never args)
  | some .missingSome => onData (asked ends Value.never args)
  | none => onData (asked ends Value.never args)

/-- The values of the arguments of an operation, when all of them have one. -/
def values (args : List Value) (data : Value) : Except Error (List Value) :=
  args.mapM fun arg => (registry.outcome arg data).result

/-- What a registered operation logs when it is called. -/
def callLog (name : String) (args : List Value) (data : Value) : List Json :=
  match Keyword.ofName? name, registry.values args data with
  | none, .ok vs => (registry.invoke name data vs).outcome.log
  | _, _ => []

/-- The logs of some visits one after another. -/
def visitLogs (visits : List (Value × Value)) : List Json :=
  logs (fun visit => registry.outcome visit.1 visit.2) visits

variable {registry}

theorem outcome_apply (rule data : Value) :
    (registry.apply rule data).outcome = registry.outcome rule data := rfl

theorem argument_map_apply (args : List Value) (i : Nat) :
    argument (args.map registry.apply) i = registry.apply (args.getD i .null) := by
  rw [argument, List.getD_eq_getElem?_getD, List.getD_eq_getElem?_getD, List.getElem?_map]
  cases args[i]? <;> rfl

/-! ## The log of an operation -/

theorem visitLogs_cons (rule data : Value) (visits : List (Value × Value)) :
    registry.visitLogs ((rule, data) :: visits) =
      (registry.outcome rule data).log ++ registry.visitLogs visits := by
  rw [visitLogs, logs, List.flatMap_cons, visitLogs, logs]

theorem visitLogs_onData (rules : List Value) (data : Value) :
    registry.visitLogs (rules.map fun rule => (rule, data)) =
      logs (fun rule => registry.outcome rule data) rules :=
  logs_map _ _ _

theorem visitLogs_onItems (source body data : Value) (contexts : List Value) :
    registry.visitLogs ((source, data) :: contexts.map fun context => (body, context)) =
      (registry.outcome source data).log ++ logs (registry.outcome body) contexts := by
  rw [visitLogs_cons, visitLogs, logs_map]

theorem log_values (args : List Value) (data : Value) :
    (evaluateAll (args.map registry.apply) data).outcome.log =
      registry.visitLogs ((asked (fun rule => registry.outcome rule data) Value.never args).map
        fun rule => (rule, data)) := by
  rw [log_evaluateAll, asked_map, logs_map, visitLogs_onData]
  rfl

theorem result_values (args : List Value) (data : Value) :
    (evaluateAll (args.map registry.apply) data).outcome.result = registry.values args data := by
  unfold values evaluateAll
  induction args with
  | nil => rfl
  | cons arg args ih =>
      rw [List.map_cons, List.mapM_cons, List.mapM_cons, Eval.outcome_bind, ← ih]
      cases harg : (registry.apply arg data).outcome.result with
      | error error =>
          rw [Outcome.andThen_of_error harg, outcome, harg]
          rfl
      | ok v =>
          rw [Outcome.andThen_of_ok harg, outcome, harg, Eval.outcome_bind]
          generalize (List.mapM (fun arg : Meaning Unit => arg data)
            (args.map registry.apply)).outcome = rest
          rcases rest with ⟨error | vs, log⟩ <;> rfl

/-- A reading of the data context evaluates all arguments. -/
theorem log_reading (f : Value → List Value → Value) (args : List Value) (data : Value) :
    (Keyword.reading f (args.map registry.apply) data).outcome.log =
      registry.visitLogs ((asked (fun rule => registry.outcome rule data) Value.never args).map
        fun rule => (rule, data)) := by
  rw [Keyword.reading, Eval.log_bind_pure, log_values]

/-- A connective evaluates the arguments up to the one that settles it. -/
theorem log_connective (b : Bool) (args : List Value) (data : Value) :
    (firstWith b (args.map registry.apply) data).outcome.log =
      registry.visitLogs ((asked (fun rule => registry.outcome rule data) (Value.hasTruth b)
        args).map fun rule => (rule, data)) := by
  rw [log_firstWith, asked_map, logs_map, visitLogs_onData]
  rfl

/-- A choice evaluates the conditions up to the first true one and its consequent. -/
theorem log_choice (args : List Value) (data : Value) :
    (choose (args.map registry.apply) data).outcome.log =
      registry.visitLogs ((askedByChoice (fun rule => registry.outcome rule data) args).map
        fun rule => (rule, data)) := by
  rw [log_choose, askedByChoice_map, logs_map, visitLogs_onData]
  rfl

/-- An iteration evaluates its source, and then its body on one item after another. -/
theorem log_iteration {holds : Value → Bool} {onItems : List Value → Eval Unit Value}
    {otherwise : Value} (args : List Value) (data : Value)
    (hitems : ∀ items, (onItems items).outcome.log =
      logs (registry.outcome (args.getD 1 .null))
        (asked (registry.outcome (args.getD 1 .null)) holds items)) :
    (argument (args.map registry.apply) 0 data >>= iterate onItems otherwise).outcome.log =
      registry.visitLogs ((args.getD 0 .null, data) ::
        (asked (registry.outcome (args.getD 1 .null)) holds
          (sourceItems (registry.outcome (args.getD 0 .null) data))).map
            fun context => (args.getD 1 .null, context)) := by
  rw [log_iterate (hitems []), argument_map_apply, hitems, visitLogs_onItems]
  rfl

/-- A reduction evaluates its source and its initial value, and then its body on one
step after another. -/
theorem log_reduction (args : List Value) (data : Value) :
    (reduce (args.map registry.apply) data).outcome.log =
      registry.visitLogs (registry.reductionVisits (args.getD 0 .null) (args.getD 1 .null)
        (args.getD 2 .null) data) := by
  rw [reduce, argument_map_apply, argument_map_apply, argument_map_apply, reductionVisits,
    Eval.outcome_bind, outcome_apply]
  cases hsource : (registry.outcome (args.getD 0 .null) data).result with
  | error error =>
      rw [Outcome.andThen_of_error hsource]
      exact (List.append_nil _).symm
  | ok source =>
      rw [Outcome.andThen_of_ok hsource, Eval.outcome_bind, outcome_apply]
      cases hinitial : (registry.outcome (args.getD 2 .null) data).result with
      | error error =>
          rw [Outcome.andThen_of_error hinitial]
          simp [visitLogs, logs, outcome]
      | ok initial =>
          rw [Outcome.andThen_of_ok hinitial]
          have hitems : (iterate (fun items => reduceItems (registry.apply (args.getD 1 .null))
              items initial) initial source).outcome.log =
              logs (registry.outcome (args.getD 1 .null))
                (reductions (registry.outcome (args.getD 1 .null))
                  (sourceItems (registry.outcome (args.getD 0 .null) data)) initial) := by
            rw [sourceItems, hsource]
            cases source with
            | list items => exact log_reduceItems items initial
            | _ => rfl
          rw [hitems]
          dsimp only
          rw [visitLogs_cons, visitLogs_onItems]

/-- An operator of the evaluator logs what its visits log. -/
theorem log_keyword {name : String} {keyword : Keyword}
    (hname : Keyword.ofName? name = some keyword) (args : List Value) (data : Value) :
    (keyword.meaning (args.map registry.apply) data).outcome.log =
      registry.visitLogs (registry.visits name args data) := by
  rw [visits, hname]
  cases keyword with
  | choose => exact log_choice args data
  | conjunction =>
      rw [Keyword.meaning, conjunction_eq_firstWith]
      exact log_connective false args data
  | disjunction =>
      rw [Keyword.meaning, disjunction_eq_firstWith]
      exact log_connective true args data
  | filter =>
      refine log_iteration args data fun items => ?_
      rw [argument_map_apply, Eval.log_bind_pure]
      exact log_filterItems items
  | map =>
      refine log_iteration args data fun items => ?_
      rw [argument_map_apply, Eval.log_bind_pure]
      exact log_mapItems items
  | reduce => exact log_reduction args data
  | forAll =>
      refine log_iteration args data fun items => ?_
      rw [argument_map_apply, allItems_eq_search]
      cases items with
      | nil => rfl
      | cons item items =>
          rw [List.isEmpty_cons, if_neg Bool.false_ne_true, Eval.log_bind_pure,
            Eval.log_bind_pure]
          exact log_search false (item :: items)
  | forNone =>
      refine log_iteration args data fun items => ?_
      rw [argument_map_apply, someItem_eq_search, Eval.log_bind_pure]
      exact log_search true items
  | forSome =>
      refine log_iteration args data fun items => ?_
      rw [argument_map_apply, someItem_eq_search, Eval.log_bind_pure]
      exact log_search true items
  | var => exact log_reading Value.read args data
  | missing => exact log_reading Value.missing args data
  | missingSome => exact log_reading Value.missingSome args data

/-- The log of an operation is the logs of its visits one after another, and then
that of the call, if a registered operation is called. -/
theorem log_operation (name : String) (operand data : Value) :
    (registry.outcome (.object [(name, operand)]) data).log =
      registry.visitLogs (registry.visits name operand.asList data) ++
        registry.callLog name operand.asList data := by
  rw [outcome, apply_operation, operator, callLog]
  generalize operand.asList = args
  cases hkeyword : Keyword.ofName? name with
  | some keyword =>
      dsimp only
      rw [List.append_nil]
      exact log_keyword hkeyword args data
  | none =>
      rw [visits, hkeyword]
      dsimp only
      rw [Eval.outcome_bind]
      cases hvalues : registry.values args data with
      | error error =>
          rw [← result_values] at hvalues
          rw [Outcome.andThen_of_error hvalues, log_values, List.append_nil]
      | ok vs =>
          rw [← result_values] at hvalues
          rw [Outcome.andThen_of_ok hvalues, log_values]

/-- A list evaluates its items in order, once each, up to one that fails. -/
theorem log_list (items : List Value) (data : Value) :
    (registry.outcome (.list items) data).log =
      registry.visitLogs ((asked (fun rule => registry.outcome rule data) Value.never items).map
        fun rule => (rule, data)) := by
  rw [outcome, apply, Rule.ofValue, Rule.ofValues_eq_map, meaning, meanings_eq_map, List.map_map,
    Eval.log_bind_pure]
  exact log_values items data

/-! ## What the visits of an operation are -/

/-- An operation other than an iteration visits some of its arguments, in the order
in which they are given. -/
theorem visits_of_not_iterates {name : String}
    (h : ∀ keyword ∈ Keyword.ofName? name, keyword.iterates = false) (args : List Value)
    (data : Value) :
    ∃ rules : List Value, rules.Sublist args ∧
      registry.visits name args data = rules.map fun rule => (rule, data) := by
  have heager : (asked (fun rule => registry.outcome rule data) Value.never args).Sublist args :=
    (asked_isPrefixOf _ args).sublist
  unfold visits
  cases hkeyword : Keyword.ofName? name with
  | none => exact ⟨_, heager, rfl⟩
  | some keyword =>
      have hiterates : keyword.iterates = false := h keyword hkeyword
      cases keyword with
      | choose => exact ⟨_, askedByChoice_sublist args, rfl⟩
      | conjunction => exact ⟨_, (asked_isPrefixOf _ args).sublist, rfl⟩
      | disjunction => exact ⟨_, (asked_isPrefixOf _ args).sublist, rfl⟩
      | var => exact ⟨_, heager, rfl⟩
      | missing => exact ⟨_, heager, rfl⟩
      | missingSome => exact ⟨_, heager, rfl⟩
      | _ => cases hiterates

/-- An operator that neither controls nor iterates visits all its arguments, if none
of them fails. -/
theorem visits_of_readsData {name : String}
    (h : ∀ keyword ∈ Keyword.ofName? name, keyword.readsData = true) {args : List Value}
    {data : Value} (hargs : ∀ arg ∈ args, ∃ v, (registry.outcome arg data).result = .ok v) :
    registry.visits name args data = args.map fun arg => (arg, data) := by
  have hall : asked (fun rule => registry.outcome rule data) Value.never args = args := by
    refine asked_eq_self fun arg harg => ?_
    obtain ⟨v, hv⟩ := hargs arg harg
    rw [Outcome.settles, hv]
    rfl
  unfold visits
  cases hkeyword : Keyword.ofName? name with
  | none => exact congrArg _ hall
  | some keyword =>
      have hreads : keyword.readsData = true := h keyword hkeyword
      cases keyword with
      | var => exact congrArg _ hall
      | missing => exact congrArg _ hall
      | missingSome => exact congrArg _ hall
      | _ => cases hreads

/-- An iteration other than a reduction visits its source, and then its body on the
first items of the source, in order. -/
theorem visits_of_iterates {name : String} {keyword : Keyword}
    (hname : Keyword.ofName? name = some keyword) (hiterates : keyword.iterates = true)
    (hreduce : keyword ≠ .reduce) (args : List Value) (data : Value) :
    ∃ items, items <+: sourceItems (registry.outcome (args.getD 0 .null) data) ∧
      registry.visits name args data =
        (args.getD 0 .null, data) :: items.map fun item => (args.getD 1 .null, item) := by
  unfold visits
  rw [hname]
  cases keyword with
  | filter => exact ⟨_, asked_isPrefixOf _ _, rfl⟩
  | map => exact ⟨_, asked_isPrefixOf _ _, rfl⟩
  | forAll => exact ⟨_, asked_isPrefixOf _ _, rfl⟩
  | forNone => exact ⟨_, asked_isPrefixOf _ _, rfl⟩
  | forSome => exact ⟨_, asked_isPrefixOf _ _, rfl⟩
  | reduce => exact absurd rfl hreduce
  | _ => cases hiterates

/-- A reduction visits its source, its initial value, and then its body with the
first items of the source, in order, unless one of the first two fails. -/
theorem visits_reduce (args : List Value) (data : Value) :
    ∃ accumulators : List Value,
      accumulators.length ≤ (sourceItems (registry.outcome (args.getD 0 .null) data)).length ∧
      registry.visits "reduce" args data <+:
        (args.getD 0 .null, data) :: (args.getD 2 .null, data) ::
          (List.zipWith reduction (sourceItems (registry.outcome (args.getD 0 .null) data))
            accumulators).map fun step => (args.getD 1 .null, step) := by
  show ∃ accumulators : List Value, _ ∧ registry.reductionVisits _ _ _ _ <+: _
  rw [reductionVisits]
  cases hsource : (registry.outcome (args.getD 0 .null) data).result with
  | error error => exact ⟨[], Nat.zero_le _, List.prefix_append [_] _⟩
  | ok source =>
      cases hinitial : (registry.outcome (args.getD 2 .null) data).result with
      | error error => exact ⟨[], Nat.zero_le _, List.prefix_append [_, _] _⟩
      | ok initial =>
          obtain ⟨accumulators, hlength, hsteps⟩ := reductions_eq_zipWith
            (registry.outcome (args.getD 1 .null))
            (sourceItems (registry.outcome (args.getD 0 .null) data)) initial
          exact ⟨accumulators, hlength, hsteps ▸ List.prefix_refl _⟩

/-! ## What is not visited -/

/-- The operands of a choice: conditions by turns with consequents, one condition
marked off with its consequent, and what comes after. -/
def branches (pairs : List (Value × Value)) (condition consequent : Value)
    (rest : List Value) : List Value :=
  pairs.flatMap (fun pair => [pair.1, pair.2]) ++ condition :: consequent :: rest

theorem outcome_branches {name : String} (hname : name ∈ ["if", "?:"]) {operand : Value}
    {pairs : List (Value × Value)} {condition consequent : Value} {rest : List Value}
    {data : Value} (hoperand : operand.asList = branches pairs condition consequent rest)
    (hpairs : ∀ pair ∈ pairs, (registry.outcome pair.1 data).Gives false)
    (hcondition : (registry.outcome condition data).Gives true) :
    registry.outcome (.object [(name, operand)]) data =
      ⟨(registry.outcome consequent data).result,
        logs (fun rule => registry.outcome rule data)
          (pairs.map Prod.fst ++ [condition, consequent])⟩ := by
  have hkeyword : Keyword.ofName? name = some .choose := by
    rcases List.mem_pair.mp hname with rfl | rfl <;> rfl
  have hargs : (operand.asList.map registry.apply) =
      (pairs.map fun pair => (registry.apply pair.1, registry.apply pair.2)).flatMap
        (fun pair => [pair.1, pair.2]) ++
      registry.apply condition :: registry.apply consequent :: rest.map registry.apply := by
    rw [hoperand, branches, List.map_append, List.map_flatMap, List.flatMap_map]
    rfl
  have hmeanings : ∀ pair ∈ pairs.map fun pair => (registry.apply pair.1, registry.apply pair.2),
      (endsOn data pair.1).Gives false := by
    intro pair hpair
    obtain ⟨values, hvalues, rfl⟩ := List.mem_map.mp hpair
    exact hpairs values hvalues
  rw [outcome, apply_operation, operator, hkeyword, hargs]
  dsimp only [Keyword.meaning]
  rw [outcome_choose hmeanings hcondition, List.map_map]
  refine congrArg _ (Eq.trans ?_ (logs_map (endsOn data) registry.apply _))
  rw [List.map_append, List.map_map]
  rfl

/-- A connective ends with the first argument that decides it. -/
theorem outcome_connective {name : String} {b : Bool}
    (hname : (name, b) ∈ [("and", false), ("or", true)]) {operand arg : Value}
    {front back : List Value} {data : Value} (hoperand : operand.asList = front ++ arg :: back)
    (hfront : ∀ x ∈ front, (registry.outcome x data).Gives !b)
    (harg : (registry.outcome arg data).Gives b) :
    registry.outcome (.object [(name, operand)]) data =
      ⟨(registry.outcome arg data).result,
        logs (fun rule => registry.outcome rule data) (front ++ [arg])⟩ := by
  have hmeaning : ∀ args : List (Meaning Unit),
      registry.operator name args data = firstWith b args data := by
    intro args
    rcases List.mem_pair.mp hname with h | h <;> obtain ⟨rfl, rfl⟩ := Prod.mk.inj h
    · exact conjunction_eq_firstWith args data
    · exact disjunction_eq_firstWith args data
  have hfronts : ∀ x ∈ front.map registry.apply, (endsOn data x).Gives !b := by
    intro x hx
    obtain ⟨rule, hrule, rfl⟩ := List.mem_map.mp hx
    exact hfront rule hrule
  rw [outcome, apply_operation, hmeaning, hoperand, List.map_append, List.map_cons,
    outcome_firstWith hfronts harg]
  refine congrArg _ (Eq.trans ?_ (logs_map (endsOn data) registry.apply _))
  rw [List.map_append, List.map_singleton]

/-- A quantifier searches the items for one with the truth that decides it, and gives
its answer when there is one. -/
theorem outcome_of_search {name : String} {b answer : Bool}
    (hname : (name, b, answer) ∈
      [("all", false, false), ("some", true, true), ("none", true, false)])
    {args : List (Meaning Unit)} {data : Value} {items : List Value} {log : List Json}
    (hsource : (argument args 0 data).outcome.result = .ok (.list items)) (hitems : items ≠ [])
    (hsearch : (search b (argument args 1) items).outcome = ⟨.ok true, log⟩) :
    (registry.operator name args data).outcome =
      ⟨.ok (.bool answer), (argument args 0 data).outcome.log ++ log⟩ := by
  rcases List.mem_cons.mp hname with h | h
  · obtain ⟨rfl, rfl, rfl⟩ : name = "all" ∧ b = false ∧ answer = false := by simpa using h
    show (Control.forAll args data).outcome = _
    rw [Control.forAll, outcome_iterate hsource, if_neg (by simpa using hitems), allItems_eq_search,
      Eval.outcome_bind_pure (Eval.outcome_bind_pure hsearch _)]
    rfl
  · rcases List.mem_pair.mp h with h | h
    · obtain ⟨rfl, rfl, rfl⟩ : name = "some" ∧ b = true ∧ answer = true := by simpa using h
      show (Control.forSome args data).outcome = _
      rw [Control.forSome, outcome_iterate hsource, someItem_eq_search,
        Eval.outcome_bind_pure hsearch]
    · obtain ⟨rfl, rfl, rfl⟩ : name = "none" ∧ b = true ∧ answer = false := by simpa using h
      show (Control.forNone args data).outcome = _
      rw [Control.forNone, outcome_iterate hsource, someItem_eq_search,
        Eval.outcome_bind_pure hsearch]
      rfl

/-- A quantifier ends with the first item that decides it. -/
theorem outcome_quantifier {name : String} {b answer : Bool}
    (hname : (name, b, answer) ∈
      [("all", false, false), ("some", true, true), ("none", true, false)])
    {operand source : Value} {others front : List Value} {item : Value} {back : List Value}
    {data : Value} (hoperand : operand.asList = source :: others)
    (hsource : (registry.outcome source data).result = .ok (.list (front ++ item :: back)))
    (hfront : ∀ x ∈ front, (registry.outcome (others.headD .null) x).Gives !b)
    (hitem : (registry.outcome (others.headD .null) item).Gives b) :
    registry.outcome (.object [(name, operand)]) data =
      ⟨.ok (.bool answer), (registry.outcome source data).log ++
        logs (registry.outcome (others.headD .null)) (front ++ [item])⟩ := by
  have hargument : argument (operand.asList.map registry.apply) 0 = registry.apply source := by
    rw [hoperand, argument_map_apply]
    rfl
  have hbody : argument (operand.asList.map registry.apply) 1 =
      registry.apply (others.headD .null) := by
    rw [hoperand, argument_map_apply]
    cases others <;> rfl
  have hsearch : (search b (registry.apply (others.headD .null)) (front ++ item :: back)).outcome =
      ⟨.ok true, logs (registry.outcome (others.headD .null)) (front ++ [item])⟩ :=
    outcome_search hfront hitem back
  rw [outcome, ← hargument] at hsource
  rw [← hbody] at hsearch
  rw [outcome, apply_operation]
  rw [outcome_of_search hname hsource (by simp) hsearch, hargument]
  rfl

/-! ## Frugality -/

/-- Evaluation over the registry evaluates what it needs, once and in order, and
nothing else. -/
structure Frugal (registry : Registry Unit) : Prop where
  /-- What comes after the first true condition and its consequent can be replaced
  in a choice, and so can the consequents before. -/
  choice : ∀ {name : String} {operand operand' : Value} {pairs pairs' : List (Value × Value)}
    {condition consequent : Value} {rest rest' : List Value} {data : Value},
    name ∈ ["if", "?:"] →
    operand.asList = branches pairs condition consequent rest →
    operand'.asList = branches pairs' condition consequent rest' →
    pairs.map Prod.fst = pairs'.map Prod.fst →
    (∀ pair ∈ pairs, (registry.outcome pair.1 data).Gives false) →
    (registry.outcome condition data).Gives true →
    registry.outcome (.object [(name, operand)]) data =
      registry.outcome (.object [(name, operand')]) data
  /-- What comes after the first argument that decides a connective can be replaced. -/
  connective : ∀ {name : String} {b : Bool} {operand operand' arg : Value}
    {front back back' : List Value} {data : Value},
    (name, b) ∈ [("and", false), ("or", true)] →
    operand.asList = front ++ arg :: back →
    operand'.asList = front ++ arg :: back' →
    (∀ x ∈ front, (registry.outcome x data).Gives !b) →
    (registry.outcome arg data).Gives b →
    registry.outcome (.object [(name, operand)]) data =
      registry.outcome (.object [(name, operand')]) data
  /-- The items after the first one that decides a quantifier can be replaced, by
  another source: but for the log of the source, nothing changes. -/
  quantifier : ∀ {name : String} {b answer : Bool} {operand operand' source source' : Value}
    {others front : List Value} {item : Value} {back back' : List Value} {data : Value},
    (name, b, answer) ∈ [("all", false, false), ("some", true, true), ("none", true, false)] →
    operand.asList = source :: others →
    operand'.asList = source' :: others →
    (registry.outcome source data).result = .ok (.list (front ++ item :: back)) →
    (registry.outcome source' data).result = .ok (.list (front ++ item :: back')) →
    (∀ x ∈ front, (registry.outcome (others.headD .null) x).Gives !b) →
    (registry.outcome (others.headD .null) item).Gives b →
    ∃ log,
      registry.outcome (.object [(name, operand)]) data =
        ⟨.ok (.bool answer), (registry.outcome source data).log ++ log⟩ ∧
      registry.outcome (.object [(name, operand')]) data =
        ⟨.ok (.bool answer), (registry.outcome source' data).log ++ log⟩
  /-- An operation logs what its visits log, one after another, and then what the
  call of a registered operation logs. -/
  order : ∀ (name : String) (operand data : Value),
    (registry.outcome (.object [(name, operand)]) data).log =
      registry.visitLogs (registry.visits name operand.asList data) ++
        registry.callLog name operand.asList data
  /-- The visits of an operation other than an iteration are of its arguments, each
  once at most and from left to right. -/
  inOrder : ∀ {name : String}, (∀ keyword ∈ Keyword.ofName? name, keyword.iterates = false) →
    ∀ (args : List Value) (data : Value), ∃ rules : List Value, rules.Sublist args ∧
      registry.visits name args data = rules.map fun rule => (rule, data)
  /-- An operator that neither controls nor iterates needs all its arguments. -/
  eager : ∀ {name : String}, (∀ keyword ∈ Keyword.ofName? name, keyword.readsData = true) →
    ∀ {args : List Value} {data : Value},
      (∀ arg ∈ args, ∃ v, (registry.outcome arg data).result = .ok v) →
      registry.visits name args data = args.map fun arg => (arg, data)
  /-- The visits of an iteration other than a reduction are of its source, and then
  of its body on the first items of the source. -/
  onItems : ∀ {name : String} {keyword : Keyword}, Keyword.ofName? name = some keyword →
    keyword.iterates = true → keyword ≠ .reduce → ∀ (args : List Value) (data : Value),
      ∃ items, items <+: sourceItems (registry.outcome (args.getD 0 .null) data) ∧
        registry.visits name args data =
          (args.getD 0 .null, data) :: items.map fun item => (args.getD 1 .null, item)
  /-- The visits of a reduction are of its source, of its initial value, and then of
  its body with the first items of the source. -/
  onSteps : ∀ (args : List Value) (data : Value), ∃ accumulators : List Value,
    accumulators.length ≤ (sourceItems (registry.outcome (args.getD 0 .null) data)).length ∧
      registry.visits "reduce" args data <+:
        (args.getD 0 .null, data) :: (args.getD 2 .null, data) ::
          (List.zipWith reduction (sourceItems (registry.outcome (args.getD 0 .null) data))
            accumulators).map fun step => (args.getD 1 .null, step)
  /-- A list logs what its items log, one after another, up to one that fails. -/
  list : ∀ (items : List Value) (data : Value),
    (registry.outcome (.list items) data).log =
      registry.visitLogs ((asked (fun rule => registry.outcome rule data) Value.never items).map
        fun rule => (rule, data))

/-- Evaluation is frugal over every registry of pure operations. -/
theorem frugal (registry : Registry Unit) : registry.Frugal where
  choice := by
    intro name operand operand' pairs pairs' condition consequent rest rest' data hname hoperand
      hoperand' hconditions hpairs hcondition
    have hpairs' : ∀ pair ∈ pairs', (registry.outcome pair.1 data).Gives false := by
      intro pair hpair
      have hmem : pair.1 ∈ pairs.map Prod.fst := by
        rw [hconditions]
        exact List.mem_map_of_mem hpair
      obtain ⟨same, hsame, heq⟩ := List.mem_map.mp hmem
      rw [← heq]
      exact hpairs same hsame
    rw [outcome_branches hname hoperand hpairs hcondition,
      outcome_branches hname hoperand' hpairs' hcondition, hconditions]
  connective := by
    intro name b operand operand' arg front back back' data hname hoperand hoperand' hfront harg
    rw [outcome_connective hname hoperand hfront harg,
      outcome_connective hname hoperand' hfront harg]
  quantifier := by
    intro name b answer operand operand' source source' others front item back back' data hname
      hoperand hoperand' hsource hsource' hfront hitem
    exact ⟨_, outcome_quantifier hname hoperand hsource hfront hitem,
      outcome_quantifier hname hoperand' hsource' hfront hitem⟩
  order := log_operation
  inOrder := visits_of_not_iterates
  eager := visits_of_readsData
  onItems := visits_of_iterates
  onSteps := visits_reduce
  list := log_list

/-- Logs the name, if there is one. -/
def loggedName : Value := .object [("log", .list [.object [("var", .text "name")]])]

/-- Answers whether there is a name, with the second answer left open. -/
def answering (otherwise : Value) : Value :=
  .object [("if", .list (branches [] loggedName (.text "yes") [otherwise]))]

/-- With a name, an operator that does not exist does no harm in the second answer,
and the condition is logged once. -/
theorem frugal_answering :
    builtins.outcome (answering (.object [("fail", .null)])) (.object [("name", .text "a")]) =
      builtins.outcome (answering (.text "no")) (.object [("name", .text "a")]) ∧
    (builtins.outcome (answering (.object [("fail", .null)]))
      (.object [("name", .text "a")])).log = [.text "a"] := by
  have hcondition : (builtins.outcome loggedName (.object [("name", .text "a")])).Gives true :=
    ⟨.text "a", by rfl, by rfl⟩
  exact ⟨(frugal builtins).choice List.mem_cons_self rfl rfl rfl (fun _ hpair => nomatch hpair)
    hcondition, by rfl⟩

end DataRules.Registry
