import DataRules.Proofs.Eval.Logs

set_option autoImplicit false

/-!
# Transparency: logging on the way changes nothing else

`log` gives back its argument, so wrapping a part of a rule in it shows what the
part evaluates to without changing what the rule does.  That holds wherever a
rule is evaluated, and for any number of parts at once, since an operator is
given the values of its arguments, or what they mean, and never sees how they
are written.  What was logged before is still logged, in the same order.
-/

namespace DataRules

mutual

/-- The second rule is the first one with parts wrapped in `log`: the rule itself,
items of lists and arguments of operations, at any depth. -/
inductive Logged : Value → Value → Prop where
  /-- nothing is wrapped -/
  | refl (rule : Value) : Logged rule rule
  /-- the rule is wrapped, and so may be parts of it -/
  | wrap {rule rule' : Value} (hrule : Logged rule rule') :
      Logged rule (.object [("log", .list [rule'])])
  /-- items of a list are wrapped -/
  | list {items items' : List Value} (hitems : LoggedEach items items') :
      Logged (.list items) (.list items')
  /-- arguments of an operation are wrapped; a single argument may stand alone or
  in a list -/
  | operation {operator : String} {operand operand' : Value}
      (hargs : LoggedEach operand.asList operand'.asList) :
      Logged (.object [(operator, operand)]) (.object [(operator, operand')])

/-- As many rules in the second list as in the first, each of them the one at its
position with parts wrapped. -/
inductive LoggedEach : List Value → List Value → Prop where
  | nil : LoggedEach [] []
  | cons {rule rule' : Value} {rules rules' : List Value} (hrule : Logged rule rule')
      (hrules : LoggedEach rules rules') : LoggedEach (rule :: rules) (rule' :: rules')

end

namespace Registry

variable {σ : Type} {registry : Registry σ}

/-- A call of the built-in `log` logs the first argument and gives it back. -/
theorem invoke_log (hlog : registry.get? "log" = some (.function Builtin.log)) (data : Value)
    (args : List Value) : registry.invoke "log" data args = Builtin.log args := by
  simp only [invoke, hlog, Option.bind_some, Operation.call?]

/-- A wrapped rule does what the rule does, and logs its value. -/
theorem meaning_wrapped (hlog : registry.get? "log" = some (.function Builtin.log))
    (rule data : Value) :
    registry.meaning (Rule.ofValue (.object [("log", .list [rule])])) data =
      registry.meaning (Rule.ofValue rule) data >>= fun v => Builtin.log [v] := by
  rw [Rule.ofValue_operation, meaning, meanings_eq_map]
  show Control.evaluateAll [registry.meaning (Rule.ofValue rule)] data >>=
    registry.invoke "log" data = _
  simp only [Control.evaluateAll, List.mapM_cons, List.mapM_nil, bind_assoc, pure_bind,
    invoke_log hlog]

/-- Logging a value is giving it, with one more entry in the log. -/
theorem log_endsAlike (v : Value) :
    (Lifting.endsAlike σ .sublist).Rel (· = ·) (pure v) (Builtin.log [v]) :=
  fun _ => .done rfl (List.nil_sublist _)

mutual

private theorem meaning_logged (hlog : registry.get? "log" = some (.function Builtin.log)) :
    {rule rule' : Value} → Logged rule rule' → ∀ data,
      (Lifting.endsAlike σ .sublist).Alike .equality data data
        (registry.meaning (Rule.ofValue rule)) (registry.meaning (Rule.ofValue rule'))
  | _, _, .refl _, _ => Eval.endsAlike_self _
  | rule, .object [(_, .list [rule'])], .wrap hrule, data => by
      have hboth := meaning_logged hlog hrule data
      rw [Lifting.Alike, meaning_wrapped hlog,
        ← bind_pure (registry.meaning (Rule.ofValue rule) data)]
      refine (Lifting.endsAlike σ .sublist).bind hboth ?_
      rintro v _ rfl
      exact log_endsAlike v
  | _, _, .list hitems, data => by
      rw [Rule.ofValue, Rule.ofValue, Rule.ofValues_eq_map, Rule.ofValues_eq_map]
      exact list_congr (meanings_logged hlog hitems data)
  | .object [(operator, _)], _, .operation hargs, data => by
      have hcalls : CallsRelated (Lifting.endsAlike σ .sublist) .equality registry registry
          operator := by
        rintro context _ vs vs' rfl hvs
        obtain rfl := Value.Congruence.eq_of_equality hvs
        exact Eval.endsAlike_self _
      rw [Rule.ofValue_operation, Rule.ofValue_operation, meaning, meaning]
      refine operator_congr (Value.Congruence.equality_respects _)
        (Value.Congruence.equality_respects _) (Value.Congruence.equality_respects _)
        (fun _ => hcalls) ?_ rfl
      rintro context _ rfl
      exact meanings_logged hlog hargs context

private theorem meanings_logged (hlog : registry.get? "log" = some (.function Builtin.log)) :
    {rules rules' : List Value} → LoggedEach rules rules' → ∀ data,
      List.Forall₂ ((Lifting.endsAlike σ .sublist).Alike .equality data data)
        (registry.meanings (rules.map Rule.ofValue)) (registry.meanings (rules'.map Rule.ofValue))
  | _, _, .nil, _ => .nil
  | _, _, .cons hfirst hrest, data =>
      .cons (meaning_logged hlog hfirst data) (meanings_logged hlog hrest data)

end

/-- Wrapping parts of a rule in the built-in `log` leaves the value or the error of
the rule as it was, and the host in the same state, on every data context.  The
log of the rule is what is left of the new log when entries are taken out. -/
theorem apply_of_logged (hlog : registry.get? "log" = some (.function Builtin.log))
    {rule rule' : Value} (h : Logged rule rule') (data : Value) (state : σ) :
    ((registry.apply rule' data).run state).1.result =
        ((registry.apply rule data).run state).1.result ∧
      ((registry.apply rule' data).run state).2 = ((registry.apply rule data).run state).2 ∧
      ((registry.apply rule data).run state).1.log.Sublist
        ((registry.apply rule' data).run state).1.log := by
  have hends := meaning_logged hlog h data state
  exact ⟨hends.result_eq.1.symm, hends.result_eq.2.symm, hends.log⟩

/-- Answers whether there is a name. -/
def answerName : Value :=
  .object [("if", .list [.object [("var", .text "name")], .text "yes", .text "no"])]

/-- The same rule, with the path, what is read there and the second answer wrapped. -/
def answerNameLogged : Value :=
  .object [("if", .list [
    .object [("log", .list [.object [("var", .object [("log", .list [.text "name"])])]])],
    .text "yes", .object [("log", .list [.text "no"])]])]

/-- The path and the name are logged, and the second answer is not, as it is not
evaluated. -/
theorem apply_of_logged_answerName :
    (builtins : Registry Unit).get? "log" = some (.function Builtin.log) ∧
    Logged answerName answerNameLogged ∧
    ((builtins.apply answerNameLogged (.object [("name", .text "a")])).run ()).1.result =
      ((builtins.apply answerName (.object [("name", .text "a")])).run ()).1.result ∧
    ((builtins.apply answerNameLogged (.object [("name", .text "a")])).run ()).1.log =
      [.text "name", .text "a"] := by
  have hlog : (builtins : Registry Unit).get? "log" = some (.function Builtin.log) := by rfl
  have hpath : Logged (.object [("var", .text "name")])
      (.object [("var", .object [("log", .list [.text "name"])])]) :=
    .operation (.cons (.wrap (.refl _)) .nil)
  have h : Logged answerName answerNameLogged :=
    .operation (.cons (.wrap hpath) (.cons (.refl _) (.cons (.wrap (.refl _)) .nil)))
  exact ⟨hlog, h, (apply_of_logged hlog h _ ()).1, by rfl⟩

end Registry

end DataRules
