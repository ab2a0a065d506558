import DataRules.Eval.Engine
import Mathlib.Data.List.Forall2

set_option autoImplicit false

/-!
# Lifting: relating two evaluations

Many laws of the language are about two evaluations: of one rule over two
registries, on two data contexts, or of two rules that differ in a known way.
Such a law is a relation between evaluations that holds of the parts and has to
be carried to the whole.  `Lifting` states what carries it: the relation holds
of two evaluations that end at once with related values, and it survives
sequencing.  Control and iteration are built from nothing else, so one lemma for
each operator below serves every law.

The values of the two evaluations are related by a `Value.Congruence`: a
relation that truth, lists and the steps of a reduction respect.
-/

namespace DataRules

/-- A relation between values that control and iteration respect. -/
structure Value.Congruence where
  Rel : Value → Value → Prop
  null : Rel .null .null
  bool : ∀ b : Bool, Rel (.bool b) (.bool b)
  list : ∀ {items items' : List Value},
    List.Forall₂ Rel items items' → Rel (.list items) (.list items')
  truth : ∀ {v v' : Value}, Rel v v' → v.isTruthy = v'.isTruthy
  items_of_left : ∀ {items : List Value} {v' : Value}, Rel (.list items) v' →
    ∃ items', v' = .list items' ∧ List.Forall₂ Rel items items'
  list_of_right : ∀ {v : Value} {items' : List Value}, Rel v (.list items') →
    ∃ items, v = .list items
  reduction : ∀ {item item' accumulator accumulator' : Value}, Rel item item' →
    Rel accumulator accumulator' →
    Rel (Control.reduction item accumulator) (Control.reduction item' accumulator')

/-- Equal values. -/
def Value.Congruence.equality : Value.Congruence where
  Rel := (· = ·)
  null := rfl
  bool := fun _ => rfl
  list := fun h => congrArg Value.list (List.forall₂_eq_eq_eq ▸ h)
  truth := fun h => congrArg Value.isTruthy h
  items_of_left := fun {items _} h => ⟨items, h.symm, List.forall₂_refl items⟩
  list_of_right := fun {_ items'} h => ⟨items', h⟩
  reduction := fun hitem haccumulator => by rw [hitem, haccumulator]

theorem Value.Congruence.eq_of_equality {vs vs' : List Value}
    (h : List.Forall₂ equality.Rel vs vs') : vs = vs' :=
  List.forall₂_eq_eq_eq ▸ h

/-- A reading of the data context takes related data and arguments to related
values. -/
def Value.Congruence.Respects (V : Value.Congruence) (f : Value → List Value → Value) : Prop :=
  ∀ {data data' : Value} {vs vs' : List Value}, V.Rel data data' → List.Forall₂ V.Rel vs vs' →
    V.Rel (f data vs) (f data' vs')

theorem Value.Congruence.equality_respects (f : Value → List Value → Value) :
    equality.Respects f := by
  intro data data' vs vs' hdata hvs
  obtain rfl : data = data' := hdata
  exact congrArg (f data) (eq_of_equality hvs)

/-- A way to carry relations between values to relations between evaluations. -/
structure Lifting (σ τ : Type) where
  /-- The evaluations are related, their values by the relation given. -/
  Rel : {α β : Type} → (α → β → Prop) → Eval σ α → Eval τ β → Prop
  pure : ∀ {α β : Type} {r : α → β → Prop} {a : α} {b : β}, r a b →
    Rel r (pure a) (pure b)
  bind : ∀ {α β γ δ : Type} {r : α → β → Prop} {s : γ → δ → Prop} {m : Eval σ α}
    {n : Eval τ β} {f : α → Eval σ γ} {g : β → Eval τ δ},
    Rel r m n → (∀ a b, r a b → Rel s (f a) (g b)) → Rel s (m >>= f) (n >>= g)

namespace Lifting

variable {σ τ : Type} (L : Lifting σ τ) (V : Value.Congruence)

/-- The two meanings are related on the two data contexts. -/
def Alike (data data' : Value) (m : Meaning σ) (n : Meaning τ) : Prop :=
  L.Rel V.Rel (m data) (n data')

variable {L V} {data data' : Value} {args : List (Meaning σ)} {args' : List (Meaning τ)}

/-! ## Control -/

theorem evaluateAll (h : List.Forall₂ (L.Alike V data data') args args') :
    L.Rel (List.Forall₂ V.Rel) (Control.evaluateAll args data)
      (Control.evaluateAll args' data') := by
  unfold Control.evaluateAll
  induction h with
  | nil => exact L.pure .nil
  | cons hfirst _ ih =>
      rw [List.mapM_cons, List.mapM_cons]
      refine L.bind hfirst ?_
      intro v v' hv
      exact L.bind ih fun vs vs' hvs => L.pure (.cons hv hvs)

theorem argument (h : List.Forall₂ (L.Alike V data data') args args') (i : Nat) :
    L.Alike V data data' (Control.argument args i) (Control.argument args' i) := by
  unfold Control.argument
  induction h generalizing i with
  | nil => exact L.pure V.null
  | cons hfirst _ ih =>
      cases i with
      | zero => exact hfirst
      | succ i => exact ih i

theorem choose : ∀ {args : List (Meaning σ)} {args' : List (Meaning τ)},
    List.Forall₂ (L.Alike V data data') args args' →
    L.Alike V data data' (Control.choose args) (Control.choose args')
  | [], [], .nil => L.pure V.null
  | [_], [_], .cons hotherwise .nil => hotherwise
  | _ :: _ :: _, _ :: _ :: _, .cons hcondition (.cons hconsequent hrest) => by
      refine L.bind hcondition ?_
      intro v v' hv
      rw [V.truth hv]
      split
      · exact hconsequent
      · exact choose hrest

theorem conjunction : ∀ {args : List (Meaning σ)} {args' : List (Meaning τ)},
    List.Forall₂ (L.Alike V data data') args args' →
    L.Alike V data data' (Control.conjunction args) (Control.conjunction args')
  | [], [], .nil => L.pure V.null
  | [_], [_], .cons hlast .nil => hlast
  | _ :: _ :: _, _ :: _ :: _, .cons hfirst (.cons hnext hrest) => by
      refine L.bind hfirst ?_
      intro v v' hv
      rw [V.truth hv]
      split
      · exact conjunction (.cons hnext hrest)
      · exact L.pure hv

theorem disjunction : ∀ {args : List (Meaning σ)} {args' : List (Meaning τ)},
    List.Forall₂ (L.Alike V data data') args args' →
    L.Alike V data data' (Control.disjunction args) (Control.disjunction args')
  | [], [], .nil => L.pure V.null
  | [_], [_], .cons hlast .nil => hlast
  | _ :: _ :: _, _ :: _ :: _, .cons hfirst (.cons hnext hrest) => by
      refine L.bind hfirst ?_
      intro v v' hv
      rw [V.truth hv]
      split
      · exact L.pure hv
      · exact disjunction (.cons hnext hrest)

/-! ## Iteration over the items of a list

The bodies have to be related on related items only; nothing is asked of them on
the data contexts of the two evaluations. -/

/-- The two bodies are related on all related items. -/
def AlikeOnItems (L : Lifting σ τ) (V : Value.Congruence) (body : Meaning σ)
    (body' : Meaning τ) : Prop :=
  ∀ item item', V.Rel item item' → L.Alike V item item' body body'

variable {body : Meaning σ} {body' : Meaning τ} {items items' : List Value}

theorem mapItems (hbody : L.AlikeOnItems V body body') (h : List.Forall₂ V.Rel items items') :
    L.Rel (List.Forall₂ V.Rel) (Control.mapItems body items) (Control.mapItems body' items') := by
  induction h with
  | nil => exact L.pure .nil
  | cons hitem _ ih =>
      refine L.bind (hbody _ _ hitem) ?_
      intro v v' hv
      exact L.bind ih fun vs vs' hvs => L.pure (.cons hv hvs)

theorem filterItems (hbody : L.AlikeOnItems V body body')
    (h : List.Forall₂ V.Rel items items') :
    L.Rel (List.Forall₂ V.Rel) (Control.filterItems body items)
      (Control.filterItems body' items') := by
  induction h with
  | nil => exact L.pure .nil
  | cons hitem _ ih =>
      refine L.bind (hbody _ _ hitem) ?_
      intro v v' hv
      refine L.bind ih fun kept kept' hkept => L.pure ?_
      rw [V.truth hv]
      split
      · exact .cons hitem hkept
      · exact hkept

theorem allItems (hbody : L.AlikeOnItems V body body') (h : List.Forall₂ V.Rel items items') :
    L.Rel (· = ·) (Control.allItems body items) (Control.allItems body' items') := by
  induction h with
  | nil => exact L.pure rfl
  | cons hitem _ ih =>
      refine L.bind (hbody _ _ hitem) ?_
      intro v v' hv
      rw [V.truth hv]
      split
      · exact ih
      · exact L.pure rfl

theorem someItem (hbody : L.AlikeOnItems V body body') (h : List.Forall₂ V.Rel items items') :
    L.Rel (· = ·) (Control.someItem body items) (Control.someItem body' items') := by
  induction h with
  | nil => exact L.pure rfl
  | cons hitem _ ih =>
      refine L.bind (hbody _ _ hitem) ?_
      intro v v' hv
      rw [V.truth hv]
      split
      · exact L.pure rfl
      · exact ih

theorem reduceItems (hbody : L.AlikeOnItems V body body')
    (h : List.Forall₂ V.Rel items items') {accumulator accumulator' : Value}
    (haccumulator : V.Rel accumulator accumulator') :
    L.Rel V.Rel (Control.reduceItems body items accumulator)
      (Control.reduceItems body' items' accumulator') := by
  induction h generalizing accumulator accumulator' with
  | nil => exact L.pure haccumulator
  | cons hitem _ ih =>
      refine L.bind (hbody _ _ (V.reduction hitem haccumulator)) ?_
      intro v v' hv
      exact ih hv

/-- Related sources are both lists, with related items, or neither is one. -/
theorem iterate {onItems : List Value → Eval σ Value} {onItems' : List Value → Eval τ Value}
    {otherwise otherwise' source source' : Value}
    (hitems : ∀ items items', List.Forall₂ V.Rel items items' →
      L.Rel V.Rel (onItems items) (onItems' items'))
    (hotherwise : V.Rel otherwise otherwise') (hsource : V.Rel source source') :
    L.Rel V.Rel (Control.iterate onItems otherwise source)
      (Control.iterate onItems' otherwise' source') := by
  unfold Control.iterate
  split
  · next items =>
      obtain ⟨items', rfl, h⟩ := V.items_of_left hsource
      exact hitems items items' h
  · next hsource_not_list =>
      split
      · next items' =>
          obtain ⟨items, rfl⟩ := V.list_of_right hsource
          exact absurd rfl (hsource_not_list items)
      · exact L.pure hotherwise

/-! ## The operators of iteration -/

section Operators

variable (hsource : L.Alike V data data' (Control.argument args 0) (Control.argument args' 0))
  (hbody : L.AlikeOnItems V (Control.argument args 1) (Control.argument args' 1))

include hsource hbody

theorem map : L.Alike V data data' (Control.map args) (Control.map args') := by
  refine L.bind hsource fun v v' hv => iterate ?_ (V.list .nil) hv
  intro items items' h
  exact L.bind (mapItems hbody h) fun vs vs' hvs => L.pure (V.list hvs)

theorem filter : L.Alike V data data' (Control.filter args) (Control.filter args') := by
  refine L.bind hsource fun v v' hv => iterate ?_ (V.list .nil) hv
  intro items items' h
  exact L.bind (filterItems hbody h) fun vs vs' hvs => L.pure (V.list hvs)

theorem forAll : L.Alike V data data' (Control.forAll args) (Control.forAll args') := by
  refine L.bind hsource fun v v' hv => iterate ?_ (V.bool false) hv
  intro items items' h
  cases h with
  | nil => exact L.pure (V.bool false)
  | cons hitem hitems =>
      exact L.bind (allItems hbody (.cons hitem hitems)) fun b b' hb => L.pure (hb ▸ V.bool b)

theorem forSome : L.Alike V data data' (Control.forSome args) (Control.forSome args') := by
  refine L.bind hsource fun v v' hv => iterate ?_ (V.bool false) hv
  intro items items' h
  exact L.bind (someItem hbody h) fun b b' hb => L.pure (hb ▸ V.bool b)

theorem forNone : L.Alike V data data' (Control.forNone args) (Control.forNone args') := by
  refine L.bind hsource fun v v' hv => iterate ?_ (V.bool true) hv
  intro items items' h
  exact L.bind (someItem hbody h) fun b b' hb => L.pure (hb ▸ V.bool !b)

theorem reduce
    (hinitial : L.Alike V data data' (Control.argument args 2) (Control.argument args' 2)) :
    L.Alike V data data' (Control.reduce args) (Control.reduce args') := by
  refine L.bind hsource fun v v' hv => L.bind hinitial ?_
  intro w w' hw
  exact iterate (fun items items' h => reduceItems hbody h hw) hw hv

end Operators

end Lifting

/-! ## The operators of the evaluator -/

namespace Keyword

/-- The operator is given the data context, not only the values of its arguments. -/
def readsData : Keyword → Bool
  | .var => true
  | .missing => true
  | .missingSome => true
  | _ => false

/-- The operator evaluates its second argument on the items of its first. -/
def iterates : Keyword → Bool
  | .filter => true
  | .map => true
  | .reduce => true
  | .forAll => true
  | .forNone => true
  | .forSome => true
  | _ => false

variable {σ τ : Type} {L : Lifting σ τ} {V : Value.Congruence} {data data' : Value}
  {args : List (Meaning σ)} {args' : List (Meaning τ)}

/-- An iteration needs its source, and `reduce` its initial value, related on the
data contexts; the body is needed on the items alone. -/
theorem iteration_alike {keyword : Keyword} (hkeyword : keyword.iterates = true)
    (hsource : L.Alike V data data' (Control.argument args 0) (Control.argument args' 0))
    (hbody : L.AlikeOnItems V (Control.argument args 1) (Control.argument args' 1))
    (hinitial : keyword = .reduce →
      L.Alike V data data' (Control.argument args 2) (Control.argument args' 2)) :
    L.Alike V data data' (keyword.meaning args) (keyword.meaning args') := by
  cases keyword with
  | filter => exact Lifting.filter hsource hbody
  | map => exact Lifting.map hsource hbody
  | reduce => exact Lifting.reduce hsource hbody (hinitial rfl)
  | forAll => exact Lifting.forAll hsource hbody
  | forNone => exact Lifting.forNone hsource hbody
  | forSome => exact Lifting.forSome hsource hbody
  | _ => cases hkeyword

/-- Control and iteration relate what they make of related arguments. -/
theorem meaning_alike {keyword : Keyword} (hkeyword : keyword.readsData = false)
    (hargs : List.Forall₂ (L.Alike V data data') args args')
    (hbody : L.AlikeOnItems V (Control.argument args 1) (Control.argument args' 1)) :
    L.Alike V data data' (keyword.meaning args) (keyword.meaning args') := by
  by_cases hiterates : keyword.iterates = true
  · exact iteration_alike hiterates (Lifting.argument hargs 0) hbody
      fun _ => Lifting.argument hargs 2
  · cases keyword with
    | choose => exact Lifting.choose hargs
    | conjunction => exact Lifting.conjunction hargs
    | disjunction => exact Lifting.disjunction hargs
    | var => cases hkeyword
    | missing => cases hkeyword
    | missingSome => cases hkeyword
    | _ => exact absurd rfl hiterates

/-- A reading relates what it makes of related arguments. -/
theorem reading_alike {f : Value → List Value → Value} (hread : V.Respects f)
    (hdata : V.Rel data data') (hargs : List.Forall₂ (L.Alike V data data') args args') :
    L.Alike V data data' (reading f args) (reading f args') :=
  L.bind (Lifting.evaluateAll hargs) fun _ _ hvs => L.pure (hread hdata hvs)

end Keyword

namespace Registry

variable {σ τ : Type}

/-- The two registries make related evaluations of the operator, on related data
and arguments. -/
def CallsRelated (L : Lifting σ τ) (V : Value.Congruence) (registry : Registry σ)
    (registry' : Registry τ) (name : String) : Prop :=
  ∀ {data data' : Value} {vs vs' : List Value}, V.Rel data data' → List.Forall₂ V.Rel vs vs' →
    L.Rel V.Rel (registry.invoke name data vs) (registry'.invoke name data' vs')

variable {L : Lifting σ τ} {V : Value.Congruence} {registry : Registry σ}
  {registry' : Registry τ}

/-- An operator relates what it makes of arguments that are related on all related
data contexts. -/
theorem operator_congr (hread : V.Respects Value.read) (hmissing : V.Respects Value.missing)
    (hmissingSome : V.Respects Value.missingSome) {name : String}
    (hinvoke : Keyword.ofName? name = none → CallsRelated L V registry registry' name)
    {args : List (Meaning σ)} {args' : List (Meaning τ)}
    (hargs : ∀ data data', V.Rel data data' → List.Forall₂ (L.Alike V data data') args args')
    {data data' : Value} (hdata : V.Rel data data') :
    L.Alike V data data' (registry.operator name args) (registry'.operator name args') := by
  have hbody : L.AlikeOnItems V (Control.argument args 1) (Control.argument args' 1) := by
    intro item item' hitem
    exact Lifting.argument (hargs item item' hitem) 1
  have hsame := hargs data data' hdata
  unfold operator
  cases hkeyword : Keyword.ofName? name with
  | none =>
      exact L.bind (Lifting.evaluateAll hsame) fun vs vs' hvs => hinvoke hkeyword hdata hvs
  | some keyword =>
      cases keyword with
      | var => exact Keyword.reading_alike hread hdata hsame
      | missing => exact Keyword.reading_alike hmissing hdata hsame
      | missingSome => exact Keyword.reading_alike hmissingSome hdata hsame
      | _ => exact Keyword.meaning_alike rfl hsame hbody

/-- A list relates what it makes of items that are related. -/
theorem list_congr {items : List Rule} {items' : List Rule} {data data' : Value}
    (h : List.Forall₂ (L.Alike V data data') (registry.meanings items)
      (registry'.meanings items')) :
    L.Alike V data data' (registry.meaning (.list items)) (registry'.meaning (.list items')) :=
  L.bind (Lifting.evaluateAll h) fun _ _ hvs => L.pure (V.list hvs)

end Registry

end DataRules
