import DataRules.Proofs.Eval.Builtins
import DataRules.Proofs.Eval.Logs
import DataRules.Proofs.Rule.Renumbered

set_option autoImplicit false

/-!
# Renumbered evaluations: one kind of number for the language

With the built-in operations, no rule can tell an integer below `2 ^ 53` in magnitude
from the double of that integer, in its literals or in the data.  Each built-in
operation takes renumbered arguments to renumbered values, and so do the readings of
the data context; everything else an evaluation does goes by truth and by position.
The log shows the difference, since what is logged is written out, but it has as many
entries.
-/

namespace DataRules

/-- Values that differ in how whole numbers are written alone. -/
def Value.Congruence.renumbered : Value.Congruence where
  Rel := Value.Renumbered
  null := .null
  bool := .bool
  list := fun hitems => .list (Value.renumberedEach_iff.mpr hitems)
  truth := fun h => h.isTruthy_eq
  items_of_left := by
    intro items v' h
    cases h with
    | list hitems => exact ⟨_, rfl, Value.renumberedEach_iff.mp hitems⟩
  list_of_right := by
    intro v items' h
    cases h with
    | list hitems => exact ⟨_, rfl⟩
  reduction := fun hitem haccumulator => .object (.cons haccumulator (.cons hitem .nil))

/-! ## The built-in operations -/

namespace Builtin

open Value (RenumberedEach)

variable {args args' : List Value}

theorem arg_renumbered (h : RenumberedEach args args') (i : Nat) :
    (arg args i).Renumbered (arg args' i) := h.getD i

theorem map_toNumber_eq (h : RenumberedEach args args') :
    args.map Value.toNumber = args'.map Value.toNumber := by
  rw [Value.renumberedEach_iff] at h
  induction h with
  | nil => rfl
  | cons hvalue _ ih => rw [List.map_cons, List.map_cons, hvalue.toNumber_eq, ih]

theorem relates_eq (holds : Ordering → Bool) {a a' b b' : Value} (ha : a.Renumbered a')
    (hb : b.Renumbered b') : relates holds a b = relates holds a' b' := by
  rw [relates, relates, ha.order?_eq hb]

theorem relation_eq (holds : Ordering → Bool) (h : RenumberedEach args args') :
    relation holds args = relation holds args' := by
  have htwo : relates holds (arg args 0) (arg args 1) =
      relates holds (arg args' 0) (arg args' 1) :=
    relates_eq holds (arg_renumbered h 0) (arg_renumbered h 1)
  rcases h with _ | ⟨ha, _ | ⟨hb, _ | ⟨hc, hrest⟩⟩⟩
  · rfl
  · exact congrArg Value.bool htwo
  · exact congrArg Value.bool htwo
  · rw [relation, relation, relates_eq holds ha hb, relates_eq holds hb hc]

theorem looselyEqual_eq (h : RenumberedEach args args') :
    looselyEqual args = looselyEqual args' :=
  (arg_renumbered h 0).looselyEquals_eq (arg_renumbered h 1)

theorem equal_eq (h : RenumberedEach args args') : equal args = equal args' :=
  (arg_renumbered h 0).equals_eq (arg_renumbered h 1)

theorem binary_eq (op : Arithmetic) (h : RenumberedEach args args') :
    binary op args = binary op args' := by
  rw [binary, binary, (arg_renumbered h 0).toNumber_eq, (arg_renumbered h 1).toNumber_eq]

theorem fold_eq (op : Arithmetic) (start : Int64) (h : RenumberedEach args args') :
    fold op start args = fold op start args' := by
  have hmap : ∀ args : List Value, fold op start args =
      .number ((args.map Value.toNumber).foldl (fun total x => op.apply total.toFloat x)
        (.int start)) := by
    intro args
    rw [fold, List.foldl_map]
  rw [hmap, hmap, map_toNumber_eq h]

theorem subtract_eq (h : RenumberedEach args args') : subtract args = subtract args' := by
  rcases h with _ | ⟨ha, _ | ⟨hb, hrest⟩⟩
  · rfl
  · rw [subtract, subtract, ha.toNumber_eq]
  · rw [subtract, subtract, ha.toNumber_eq, hb.toNumber_eq]

theorem extremum_eq (pick : Float → Float → Float) (start : Float)
    (h : RenumberedEach args args') : extremum pick start args = extremum pick start args' := by
  rw [extremum, extremum, map_toNumber_eq h]

theorem concat_eq (h : RenumberedEach args args') : concat args = concat args' := by
  rw [concat, concat, h.map_inlineText]

theorem any_equals_eq {v v' : Value} (hv : v.Renumbered v') {items items' : List Value}
    (h : RenumberedEach items items') :
    (items.any fun item => item.equals v) = items'.any fun item => item.equals v' := by
  rw [Value.renumberedEach_iff] at h
  induction h with
  | nil => rfl
  | cons hitem _ ih => rw [List.any_cons, List.any_cons, hitem.equals_eq hv, ih]

theorem contains_eq (h : RenumberedEach args args') : contains args = contains args' := by
  have hneedle := arg_renumbered h 0
  have hhaystack := arg_renumbered h 1
  unfold contains
  generalize arg args 1 = haystack, arg args' 1 = haystack' at hhaystack
  cases hhaystack with
  | text s => rw [hneedle.toText_eq]
  | list hitems => exact any_equals_eq hneedle hitems
  | _ => rfl

theorem substring_eq (h : RenumberedEach args args') : substring args = substring args' := by
  have htext := (arg_renumbered h 0).toText_eq
  have hstart := (arg_renumbered h 1).toNumber_eq
  have hlength := h.getElem? 2
  simp only [substring, htext, hstart]
  generalize args[2]? = length, args'[2]? = length' at hlength
  cases hlength with
  | none => rfl
  | some hvalue => simp only [Option.map_some, hvalue.toNumber_eq]

theorem renumberedEach_append : {front front' back back' : List Value} →
    RenumberedEach front front' → RenumberedEach back back' →
    RenumberedEach (front ++ back) (front' ++ back')
  | _, _, _, _, .nil, hback => hback
  | _, _, _, _, .cons hvalue hvalues, hback => .cons hvalue (renumberedEach_append hvalues hback)

theorem flatMap_asList_renumbered (h : RenumberedEach args args') :
    RenumberedEach (args.flatMap Value.asList) (args'.flatMap Value.asList) := by
  rw [Value.renumberedEach_iff] at h
  induction h with
  | nil => exact .nil
  | cons hvalue _ ih =>
      rw [List.flatMap_cons, List.flatMap_cons]
      exact renumberedEach_append hvalue.asList ih

/-- The operation takes renumbered arguments to renumbered values, with as many
entries in the log. -/
def Steady {σ : Type} (body : List Value → Eval σ Value) : Prop :=
  ∀ args args', RenumberedEach args args' →
    (Lifting.endsAlike σ .sameLength).Rel Value.Renumbered (body args) (body args')

section

variable {σ : Type}

theorem steady_plain {f : List Value → Value}
    (h : ∀ {args args'}, RenumberedEach args args' → (f args).Renumbered (f args')) :
    Steady (plain f : List Value → Eval σ Value) := by
  intro args args' hargs
  exact (Lifting.endsAlike σ .sameLength).pure (h hargs)

/-- A function that has one value on renumbered arguments. -/
theorem steady_of_eq {f : List Value → Value}
    (h : ∀ {args args'}, RenumberedEach args args' → f args = f args') :
    Steady (plain f : List Value → Eval σ Value) := by
  refine steady_plain fun hargs => ?_
  rw [h hargs]
  exact .refl _

/-- A question that has one answer on renumbered arguments. -/
theorem steady_bool {f : List Value → Bool}
    (h : ∀ {args args'}, RenumberedEach args args' → f args = f args') :
    Steady (plain fun args => .bool (f args) : List Value → Eval σ Value) :=
  steady_of_eq fun hargs => congrArg Value.bool (h hargs)

theorem steady_merge : Steady (plain merge : List Value → Eval σ Value) :=
  steady_plain fun hargs => .list (flatMap_asList_renumbered hargs)

theorem steady_log : Steady (log : List Value → Eval σ Value) := by
  intro args args' hargs state
  exact .done (arg_renumbered hargs 0) rfl

/-- None of the built-in operations can tell renumbered arguments apart. -/
theorem steady_catalog : ∀ entry ∈ catalog (σ := σ), Steady entry.2 := by
  simp only [catalog, List.forall_mem_cons]
  refine ⟨steady_bool looselyEqual_eq, steady_bool fun h => congrArg not (looselyEqual_eq h),
    steady_bool equal_eq, steady_bool fun h => congrArg not (equal_eq h),
    steady_of_eq (relation_eq _), steady_of_eq (relation_eq _), steady_of_eq (relation_eq _),
    steady_of_eq (relation_eq _), steady_bool fun h => (arg_renumbered h 0).isTruthy_eq,
    steady_bool fun h => congrArg not (arg_renumbered h 0).isTruthy_eq,
    steady_of_eq (binary_eq _), steady_of_eq (binary_eq _), steady_of_eq (fold_eq _ _),
    steady_of_eq (fold_eq _ _), steady_of_eq subtract_eq, steady_of_eq (extremum_eq _ _),
    steady_of_eq (extremum_eq _ _), steady_of_eq concat_eq, steady_bool contains_eq,
    steady_of_eq substring_eq, steady_merge, steady_log, ?_⟩
  exact List.forall_mem_nil _

end

end Builtin

/-! ## Evaluation -/

namespace Registry

variable {σ : Type}

/-- A call of any operator does the same on renumbered arguments, as far as an
evaluation can tell. -/
theorem builtins_callsRelated (name : String) :
    CallsRelated (Lifting.endsAlike σ .sameLength) .renumbered builtins builtins name := by
  intro data data' vs vs' _ hvs
  by_cases hname : name ∈ Builtin.names
  · obtain ⟨body, hbody, hcall⟩ := invoke_builtins_of_mem (σ := σ) hname
    rw [hcall, hcall]
    exact Builtin.steady_catalog (name, body) hbody vs vs' (Value.renumberedEach_iff.mpr hvs)
  · obtain ⟨failedAt, hcall⟩ := invoke_builtins_of_not_mem (σ := σ) hname
    rw [hcall, hcall]
    exact fun _ => .failed rfl

mutual

/-- Renumbered rules end alike on renumbered data. -/
theorem meaning_renumbered : {rule rule' : Rule} → rule.Renumbered rule' →
    ∀ {data data' : Value}, data.Renumbered data' →
      (Lifting.endsAlike σ .sameLength).Alike .renumbered data data' (builtins.meaning rule)
        (builtins.meaning rule')
  | _, _, .literal hvalue, _, _, _ => (Lifting.endsAlike σ .sameLength).pure hvalue
  | _, _, .list hitems, _, _, hdata => list_congr (meanings_renumbered hitems hdata)
  | .operation name _, _, .operation hargs, _, _, hdata => by
      have hread : Value.Congruence.renumbered.Respects Value.read :=
        fun hdata hvs => hdata.read (Value.renumberedEach_iff.mpr hvs)
      have hmissing : Value.Congruence.renumbered.Respects Value.missing :=
        fun hdata hvs => hdata.missing (Value.renumberedEach_iff.mpr hvs)
      have hmissingSome : Value.Congruence.renumbered.Respects Value.missingSome :=
        fun hdata hvs => hdata.missingSome (Value.renumberedEach_iff.mpr hvs)
      exact operator_congr hread hmissing hmissingSome (fun _ => builtins_callsRelated name)
        (fun _ _ hcontext => meanings_renumbered hargs hcontext) hdata

theorem meanings_renumbered : {rules rules' : List Rule} → Rule.RenumberedEach rules rules' →
    ∀ {data data' : Value}, data.Renumbered data' →
      List.Forall₂ ((Lifting.endsAlike σ .sameLength).Alike .renumbered data data')
        (builtins.meanings rules) (builtins.meanings rules')
  | _, _, .nil, _, _, _ => .nil
  | _, _, .cons hrule hrules, _, _, hdata =>
      .cons (meaning_renumbered hrule hdata) (meanings_renumbered hrules hdata)

end

/-- Where integers below `2 ^ 53` in magnitude are written as doubles, or such doubles as
integers, in a rule, in the data and in a pattern, nothing else changes: with the
built-in operations the evaluations end with one error, or with values that differ
in this alone, in one host state and with as many entries in their logs; the rules
read the same data paths; and they fit the patterns alike. -/
theorem apply_builtins_renumbered {rule rule' data data' pattern pattern' : Value}
    (hrule : rule.Renumbered rule') (hdata : data.Renumbered data')
    (hpattern : pattern.Renumbered pattern') (state : σ) :
    EndsAlike .sameLength Value.Renumbered ((builtins.apply rule data).run state)
        ((builtins.apply rule' data').run state) ∧
      (Rule.ofValue rule).paths = (Rule.ofValue rule').paths ∧
      Pattern.fits pattern rule = Pattern.fits pattern' rule' :=
  ⟨meaning_renumbered (Rule.renumbered_ofValue hrule) hdata state,
    (Rule.renumbered_ofValue hrule).paths_eq, Pattern.fits_eq hpattern hrule⟩

/-- Shows a count when it is three. -/
def countIsThree (three : Number) : Value :=
  .object [("if", .list [
    .object [("===", .list [.object [("var", .text "n")], .number three])],
    .object [("cat", .list [.text "n: ", .object [("log", .object [("var", .text "n")])]])],
    .text "other"])]

/-- The count is three, and is shown as `3`, with the integer in the rule and the double
in the data or the other way round. -/
theorem apply_builtins_renumbered_countIsThree :
    (countIsThree (.int 3)).Renumbered (countIsThree (.float (Float.ofInt 3))) ∧
    (Value.object [("n", .number (.float (Float.ofInt 3)))]).Renumbered
      (.object [("n", .number (.int 3))]) ∧
    EndsAlike .sameLength Value.Renumbered
      ((builtins.apply (countIsThree (.int 3))
        (.object [("n", .number (.float (Float.ofInt 3)))])).run ())
      ((builtins.apply (countIsThree (.float (Float.ofInt 3)))
        (.object [("n", .number (.int 3))])).run ()) ∧
    ((builtins.apply (countIsThree (.int 3))
        (.object [("n", .number (.float (Float.ofInt 3)))])).run ()).1.result =
      .ok (.text "n: 3") := by
  have hthree : Number.IsDoubleOf (Float.ofInt 3) 3 :=
    Number.isDoubleOf_ofInt (n := 3) (by decide)
  have hrule : (countIsThree (.int 3)).Renumbered (countIsThree (.float (Float.ofInt 3))) := by
    have hcondition : (Value.object [("===", .list [.object [("var", .text "n")],
        .number (.int 3)])]).Renumbered (.object [("===", .list [.object [("var", .text "n")],
          .number (.float (Float.ofInt 3))])]) :=
      .object (.cons (.list (.cons (.refl _) (.cons (.number (.toFloat hthree)) .nil))) .nil)
    exact .object (.cons (.list (.cons hcondition (.refl _))) .nil)
  have hdata : (Value.object [("n", .number (.float (Float.ofInt 3)))]).Renumbered
      (.object [("n", .number (.int 3))]) :=
    .object (.cons (.number (.ofFloat hthree)) .nil)
  exact ⟨hrule, hdata, (apply_builtins_renumbered hrule hdata (.refl .null) ()).1,
    by rfl⟩

end Registry

end DataRules
