import DataRules.Proofs.Eval.Comparisons
import DataRules.Proofs.Value.Equality

set_option autoImplicit false

/-!
# Mirror: comparisons read from the other side

The comparisons of two values say the same from either side.  Both equalities are
symmetric, and the order of two values is reversed when they change places; so `>` is
`<` with the arguments reversed, and `>=` is `<=` with the arguments reversed, for two
arguments and for the three of a range.  Among the equalities, the one that converts
nothing is the finer one, and on values of one kind they are the same.
-/

namespace DataRules

namespace Builtin

variable {holds mirror : Ordering → Bool}

theorem relates_mirror (hmirror : ∀ order : Ordering, mirror order.swap = holds order)
    (a b : Value) : relates holds a b = relates mirror b a := by
  rw [relates, relates, Value.order?_swap a b]
  cases a.order? b with
  | none => rfl
  | some order => exact (hmirror order).symm

theorem relation_pair_mirror (hmirror : ∀ order : Ordering, mirror order.swap = holds order)
    (a b : Value) : relation holds [a, b] = relation mirror [b, a] :=
  congrArg Value.bool (relates_mirror hmirror a b)

theorem relation_range_mirror (hmirror : ∀ order : Ordering, mirror order.swap = holds order)
    (a b c : Value) : relation holds [a, b, c] = relation mirror [c, b, a] := by
  rw [relation, relation, relates_mirror hmirror a b, relates_mirror hmirror b c, Bool.and_comm]

end Builtin

namespace Registry

/-- The comparisons that are each other's mirror image. -/
def mirrorImages : List (String × String) := [(">", "<"), (">=", "<=")]

/-- How a built-in operation ends on some argument rules. -/
def answer (name : String) (rules : List Value) (data : Value) : Except Error Value :=
  (builtins.outcome (.object [(name, .list rules)]) data).result

/-- The rule has the value on the data context. -/
def HasValue (rule data v : Value) : Prop := (builtins.outcome rule data).result = .ok v

/-- What both sides of the comparisons of three values agree on. -/
structure Mirrored (a b c : Value) : Prop where
  equals_symm : a.equals b = b.equals a
  looselyEquals_symm : a.looselyEquals b = b.looselyEquals a
  /-- Objects are equal by their keys, whichever of the two is gone through. -/
  object_iff : ∀ as bs : List (String × Value), a = .object as → b = .object bs →
    Table.Ascending as → Table.Ascending bs →
    (a.equals b = true ↔ as.length = bs.length ∧ Value.FieldsIn as bs)
  /-- A value equals itself unless NaN occurs in it. -/
  equals_self : a.equals a = true ↔ a.holdsNaN = false
  loosely_of_equals : a.equals b = true → a.looselyEquals b = true
  /-- On values of one kind the equalities are the same. -/
  loosely_eq_equals : a.kind = b.kind → a.looselyEquals b = a.equals b
  order_reversed : b.order? a = (a.order? b).map Ordering.swap
  /-- A comparison of two rules is its mirror image with the rules reversed. -/
  pair : ∀ {name image : String}, (name, image) ∈ mirrorImages → ∀ {x y data : Value},
    HasValue x data a → HasValue y data b → answer name [x, y] data = answer image [y, x] data
  /-- A range of three rules is its mirror image with the rules reversed. -/
  range : ∀ {name image : String}, (name, image) ∈ mirrorImages → ∀ {x y z data : Value},
    HasValue x data a → HasValue y data b → HasValue z data c →
    answer name [x, y, z] data = answer image [z, y, x] data

/-- The operation answers with a comparison of the values of its arguments. -/
def AnswersBy (name : String) (holds : Ordering → Bool) : Prop :=
  ∀ {rules vs : List Value} {data : Value}, (builtins : Registry Unit).values rules data = .ok vs →
    answer name rules data = .ok (Builtin.relation holds vs)

/-- Mirror images ask the same of an order and of the reversed one. -/
theorem mirrorImages_answer {name image : String} (h : (name, image) ∈ mirrorImages) :
    ∃ holds mirror : Ordering → Bool, (∀ order : Ordering, mirror order.swap = holds order) ∧
      AnswersBy name holds ∧ AnswersBy image mirror := by
  rw [mirrorImages, List.mem_cons, List.mem_singleton, Prod.mk.injEq, Prod.mk.injEq] at h
  rcases h with ⟨rfl, rfl⟩ | ⟨rfl, rfl⟩
  · refine ⟨(· == .gt), (· == .lt), ?_, ?_, ?_⟩
    · intro order
      cases order <;> rfl
    · exact result_of_values rfl fun _ => rfl
    · exact result_of_values rfl fun _ => rfl
  · refine ⟨(· != .lt), (· != .gt), ?_, ?_, ?_⟩
    · intro order
      cases order <;> rfl
    · exact result_of_values rfl fun _ => rfl
    · exact result_of_values rfl fun _ => rfl

/-- Any three values are compared alike from both sides. -/
theorem comparisons_mirrored (a b c : Value) : Mirrored a b c where
  equals_symm := Value.equals_comm a b
  looselyEquals_symm := Value.looselyEquals_comm a b
  object_iff := by
    rintro as bs rfl rfl has hbs
    exact Value.equalFields_iff_lookup has hbs
  equals_self := by
    rw [Value.equals_self, Bool.not_eq_true']
  loosely_of_equals := Value.looselyEquals_of_equals
  loosely_eq_equals := Value.looselyEquals_eq_equals
  order_reversed := Value.order?_swap a b
  pair := by
    intro name image h x y data hx hy
    obtain ⟨holds, mirror, hmirror, hname, himage⟩ := mirrorImages_answer h
    rw [hname (values_of_results (.cons hx (.cons hy .nil))),
      himage (values_of_results (.cons hy (.cons hx .nil))),
      Builtin.relation_pair_mirror hmirror]
  range := by
    intro name image h x y z data hx hy hz
    obtain ⟨holds, mirror, hmirror, hname, himage⟩ := mirrorImages_answer h
    rw [hname (values_of_results (.cons hx (.cons hy (.cons hz .nil)))),
      himage (values_of_results (.cons hz (.cons hy (.cons hx .nil)))),
      Builtin.relation_range_mirror hmirror]

end Registry

end DataRules
