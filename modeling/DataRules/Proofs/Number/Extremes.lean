import DataRules.Eval.Builtin
import DataRules.Proofs.Double.Order
import DataRules.Proofs.Double.Texts
import DataRules.Proofs.Number.Neutral

set_option autoImplicit false

/-!
# Extremes: the least and the greatest of some doubles

The double that `min` or `max` comes to stands where the least or the greatest of its
arguments stands, and nowhere when NaN is among them.  Its place is all that counts: which of
two zeros was picked does not show once the double is counted as a number, and neither does
that a whole double becomes an integer before it is compared again.
-/

namespace DataRules

open DataRules.Double

/-! ## Picking one of two doubles -/

namespace Double

variable {x y : Float} {a b : Line}

theorem lt_iff_order? : x < y ↔ order? x y = some .lt := by
  have hlt : x < y ↔ (order? x y == some .lt) = true :=
    decide_eq_true_iff (p := x.toModel < y.toModel)
  rw [hlt, beq_iff_eq]

theorem lt_iff_of_place? (hx : place? x = some a) (hy : place? y = some b) : x < y ↔ a < b := by
  rw [lt_iff_order?, order?_eq hx hy, Option.some.injEq, compare_lt_iff_lt]

/-- The one of two doubles that `pick` takes stands where the chosen one of their places is.
Of two zeros, which have one place, it may be either. -/
def Picks (pick : Float → Float → Float) (choose : Line → Line → Line) : Prop :=
  ∀ {x y : Float} {a b : Line}, place? x = some a → place? y = some b →
    place? (pick x y) = some (choose a b)

theorem picks_lesser : Picks Builtin.lesser min := by
  intro x y a b hx hy
  rw [Builtin.lesser]
  split
  · next hlt => rw [hy, min_eq_right ((lt_iff_of_place? hy hx).mp hlt).le]
  · next hlt => rw [hx, min_eq_left (not_lt.mp (mt (lt_iff_of_place? hy hx).mpr hlt))]

theorem picks_greater : Picks Builtin.greater max := by
  intro x y a b hx hy
  rw [Builtin.greater]
  split
  · next hlt => rw [hy, max_eq_right ((lt_iff_of_place? hx hy).mp hlt).le]
  · next hlt => rw [hx, max_eq_left (not_lt.mp (mt (lt_iff_of_place? hx hy).mpr hlt))]

/-- A choice among places may be made in groups, and falls on `first` only when nothing else
is there. -/
structure Chooses (choose : Line → Line → Line) (first : Line) : Prop where
  assoc : ∀ a b c, choose (choose a b) c = choose a (choose b c)
  first_left : ∀ a, choose first a = a
  first_right : ∀ a, choose a first = a

theorem chooses_min : Chooses min ⊤ := ⟨min_assoc, top_inf_eq, inf_top_eq⟩

theorem chooses_max : Chooses max ⊥ := ⟨max_assoc, bot_sup_eq, sup_bot_eq⟩

/-- The chosen one of some places, if all of them are there. -/
def chosen? (choose : Line → Line → Line) (first : Option Line) (places : List (Option Line)) :
    Option Line :=
  places.foldl (Option.map₂ choose) first

theorem chosen?_none (choose : Line → Line → Line) (places : List (Option Line)) :
    chosen? choose none places = none := by
  induction places with
  | nil => rfl
  | cons place places ih => exact ih

/-- What is chosen of two lists together is chosen of what each of them comes to. -/
theorem Chooses.chosen?_append {choose : Line → Line → Line} {first : Line}
    (h : Chooses choose first) (places more : List (Option Line)) :
    chosen? choose (some first) (places ++ more) =
      chosen? choose (some first)
        [chosen? choose (some first) places, chosen? choose (some first) more] := by
  have hleft : ∀ p, Option.map₂ choose (some first) p = p := by
    intro p
    cases p with
    | none => rfl
    | some a => exact congrArg some (h.first_left a)
  have hright : ∀ p, Option.map₂ choose p (some first) = p := by
    intro p
    cases p with
    | none => rfl
    | some a => exact congrArg some (h.first_right a)
  have : Std.Associative (Option.map₂ choose) := ⟨fun _ _ _ => Option.map₂_assoc h.assoc⟩
  calc chosen? choose (some first) (places ++ more)
      = chosen? choose (chosen? choose (some first) places) more := List.foldl_append
    _ = chosen? choose
          (Option.map₂ choose (chosen? choose (some first) places) (some first)) more := by
        rw [hright]
    _ = Option.map₂ choose (chosen? choose (some first) places)
          (chosen? choose (some first) more) := List.foldl_assoc
    _ = _ := by
        simp only [chosen?, List.foldl_cons, List.foldl_nil, hleft]

end Double

/-! ## Counting a double as a number -/

namespace Number

variable {x y : Float}

/-- Counting a double as a number keeps its place. -/
theorem place?_ofFloat (x : Float) : place? (ofFloat x).toFloat = place? x := by
  rcases ofFloat_eq_or x with hfloat | ⟨n, hint⟩
  · rw [hfloat]
    rfl
  · have hvalue := toRat?_ofFloat x
    have hsettled := isSettled_ofFloat x
    rw [hint] at hvalue hsettled ⊢
    -- the integer comes back from its double, so it is that double's number
    have hback := toRat?_ofFloat (Number.int n).toFloat
    rw [hsettled] at hback
    rw [place?_of_toRat? hvalue.symm, place?_of_toRat? hback.symm]

/-- Doubles at one place count as one number, and NaN always counts as NaN. -/
theorem ofFloat_eq_of_place? (h : place? x = place? y) : ofFloat x = ofFloat y := by
  cases hy : place? y with
  | none =>
      rw [hy] at h
      rw [eq_nan_of_isNaN (place?_eq_none_iff.mp h), eq_nan_of_isNaN (place?_eq_none_iff.mp hy)]
  | some a =>
      rw [hy] at h
      refine ofFloat_eq_of_isEqual ?_
      rw [isEqual, order?_eq h hy, compare_eq_iff_eq.mpr rfl]
      rfl

end Number

/-! ## Taking all arguments together -/

namespace Builtin

variable {pick : Float → Float → Float} {choose : Line → Line → Line} {start : Float}
  {first : Line}

/-- The double that some doubles are taken together to, from the left.  The first NaN among
them ends it. -/
def extreme (pick : Float → Float → Float) : Float → List Float → Float
  | best, [] => best
  | best, x :: xs => if x.isNaN then Double.nan else extreme pick (pick best x) xs

theorem extremum_eq_extreme (pick : Float → Float → Float) (start : Float) (args : List Value) :
    extremum pick start args = .ofFloat (extreme pick start (args.map Value.toNumber)) := by
  rw [extremum]
  generalize args.map Value.toNumber = numbers
  induction numbers generalizing start with
  | nil => rfl
  | cons x xs ih =>
      cases hx : x.isNaN with
      | true =>
          simp only [extreme, List.any_cons, hx, Bool.true_or, if_true]
          rfl
      | false =>
          simp only [extreme, List.any_cons, hx, Bool.false_or, Bool.false_eq_true, if_false,
            List.foldl_cons]
          exact ih (pick start x)

theorem place?_extreme (hpick : Picks pick choose) (hstart : place? start = some first)
    (xs : List Float) :
    place? (extreme pick start xs) = chosen? choose (some first) (xs.map place?) := by
  induction xs generalizing start first with
  | nil => exact hstart
  | cons x xs ih =>
      rw [extreme, List.map_cons]
      cases hx : place? x with
      | none =>
          rw [if_pos (place?_eq_none_iff.mp hx)]
          exact (chosen?_none choose _).symm
      | some a =>
          have hnumber : ¬x.isNaN = true := by
            rw [← place?_eq_none_iff, hx]
            exact Option.some_ne_none a
          rw [if_neg hnumber]
          exact ih (hpick hstart hx)

/-- A minimum or maximum counts a double that stands at the chosen one of the places of its
arguments. -/
theorem exists_extremum_eq (hpick : Picks pick choose) (hstart : place? start = some first)
    (args : List Value) :
    ∃ x, extremum pick start args = .ofFloat x ∧
      place? x = chosen? choose (some first) (args.map fun v => place? v.toNumber) := by
  refine ⟨_, extremum_eq_extreme pick start args, ?_⟩
  rw [place?_extreme hpick hstart, List.map_map]
  rfl

/-- It does not depend on which of two zeros is picked. -/
theorem extremum_eq_of_picks {pick' : Float → Float → Float} (hpick : Picks pick choose)
    (hpick' : Picks pick' choose) (hstart : place? start = some first) :
    extremum pick start = extremum pick' start := by
  funext args
  obtain ⟨x, hx, hplace⟩ := exists_extremum_eq hpick hstart args
  obtain ⟨x', hx', hplace'⟩ := exists_extremum_eq hpick' hstart args
  rw [hx, hx']
  exact congrArg Value.number (Number.ofFloat_eq_of_place? (hplace.trans hplace'.symm))

/-- The minimum or maximum of two lists of arguments is that of what each list gives. -/
theorem extremum_append (hpick : Picks pick choose) (hchoose : Chooses choose first)
    (hstart : place? start = some first) (xs ys : List Value) :
    extremum pick start (xs ++ ys) =
      extremum pick start [extremum pick start xs, extremum pick start ys] := by
  have hplace : ∀ args : List Value, place? (extremum pick start args).toNumber =
      chosen? choose (some first) (args.map fun v => place? v.toNumber) := by
    intro args
    obtain ⟨x, hx, hchosen⟩ := exists_extremum_eq hpick hstart args
    rw [hx, ← hchosen]
    exact Number.place?_ofFloat x
  obtain ⟨x, hx, hwhole⟩ := exists_extremum_eq hpick hstart (xs ++ ys)
  obtain ⟨y, hy, hgrouped⟩ := exists_extremum_eq hpick hstart
    [extremum pick start xs, extremum pick start ys]
  rw [hx, hy]
  refine congrArg Value.number (Number.ofFloat_eq_of_place? ?_)
  rw [hwhole, hgrouped, List.map_append, hchoose.chosen?_append]
  simp only [List.map_cons, List.map_nil, hplace]

end Builtin

end DataRules
