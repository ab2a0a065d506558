import DataRules.Proofs.Eval.Builtins
import DataRules.Proofs.Number.Extremes

set_option autoImplicit false

/-!
# Regrouping: arguments taken together in two steps

`cat`, `merge`, `min` and `max` take any number of arguments.  Calling one of them on the first
arguments and on the others, and then on the two results, gives what calling it on all of them
gives.  A result is an argument like any other: a text for `cat`, a list whose items `merge`
takes out again, and a number for `min` and `max`, which for no arguments is an infinity.
-/

namespace DataRules

open DataRules.Double

namespace Builtin

/-- The text of two lists of arguments is the text of what each list gives. -/
theorem concat_append (xs ys : List Value) : concat (xs ++ ys) = concat [concat xs, concat ys] := by
  have hinline : ∀ args, (concat args).inlineText = String.join (args.map Value.inlineText) :=
    fun _ => rfl
  rw [concat, concat, List.map_append, String.join_append, List.map_cons, List.map_cons,
    List.map_nil, hinline, hinline, String.join_cons, String.join_cons, String.join_nil,
    String.append_empty]

/-- The items of the two lists that are given make up the one. -/
theorem merge_append (xs ys : List Value) : merge (xs ++ ys) = merge [merge xs, merge ys] := by
  have hitems : ∀ args, (merge args).asList = args.flatMap Value.asList := fun _ => rfl
  rw [merge, merge, List.flatMap_append, List.flatMap_cons, List.flatMap_cons, List.flatMap_nil,
    hitems, hitems, List.append_nil]

end Builtin

namespace Registry

variable {σ : Type}

/-- The built-in operation of a name is the function `f` of its arguments, and these may be
taken together in two steps. -/
structure Regroups (σ : Type) (name : String) (f : List Value → Value) : Prop where
  /-- A call gives a value on any arguments, and does nothing else. -/
  calls : ∀ data args, (builtins : Registry σ).invoke name data args = pure (f args)
  /-- The arguments may be split anywhere. -/
  grouped : ∀ xs ys : List Value, f (xs ++ ys) = f [f xs, f ys]
  /-- A rule may be split so too: the parts are evaluated in the same order, with the same
  errors, the same log and the same effects. -/
  rules : ∀ (front back : List Value) (data : Value),
    (builtins : Registry σ).apply (.object [(name, .list (front ++ back))]) data =
      builtins.apply (.object [(name,
        .list [.object [(name, .list front)], .object [(name, .list back)]])]) data

/-- Rules are split as their values are. -/
theorem regroups_of_grouped {name : String} {f : List Value → Value}
    (hkeyword : Keyword.ofName? name = none)
    (hcalls : ∀ data args, (builtins : Registry σ).invoke name data args = pure (f args))
    (hgrouped : ∀ xs ys : List Value, f (xs ++ ys) = f [f xs, f ys]) : Regroups σ name f where
  calls := hcalls
  grouped := hgrouped
  rules := by
    intro front back data
    have happly := fun rules => apply_builtin hkeyword (f := f) (hcalls data) rules
    rw [happly, happly, List.map_append, Control.evaluateAll_append, List.map_cons, List.map_cons,
      List.map_nil]
    simp only [Control.evaluateAll, List.mapM_cons, List.mapM_nil, happly, bind_assoc, pure_bind,
      hgrouped]

/-- The operations whose arguments may be taken together in two steps. -/
structure SplitsAnywhere (σ : Type) : Prop where
  cat : Regroups σ "cat" Builtin.concat
  merge : Regroups σ "merge" Builtin.merge
  min : Regroups σ "min" (Builtin.extremum Builtin.lesser infinity)
  max : Regroups σ "max" (Builtin.extremum Builtin.greater (-infinity))
  /-- Any way to pick the lesser of two doubles, whichever zero it gives, makes one `min`. -/
  min_unique : ∀ pick : Float → Float → Float, Picks pick Min.min →
    Builtin.extremum pick infinity = Builtin.extremum Builtin.lesser infinity
  /-- The same holds of the greater and `max`. -/
  max_unique : ∀ pick : Float → Float → Float, Picks pick Max.max →
    Builtin.extremum pick (-infinity) = Builtin.extremum Builtin.greater (-infinity)

/-- The four operations are so. -/
theorem splitsAnywhere : SplitsAnywhere σ where
  cat := regroups_of_grouped rfl (fun data => invoke_builtins_of_lookup rfl data)
    Builtin.concat_append
  merge := regroups_of_grouped rfl (fun data => invoke_builtins_of_lookup rfl data)
    Builtin.merge_append
  min := regroups_of_grouped rfl (fun data => invoke_builtins_of_lookup rfl data)
    (Builtin.extremum_append picks_lesser chooses_min rfl)
  max := regroups_of_grouped rfl (fun data => invoke_builtins_of_lookup rfl data)
    (Builtin.extremum_append picks_greater chooses_max rfl)
  min_unique := fun _ hpick => Builtin.extremum_eq_of_picks hpick picks_lesser rfl
  max_unique := fun _ hpick => Builtin.extremum_eq_of_picks hpick picks_greater rfl

/-- A list inside a list stays one when its result is taken apart again. -/
example : Builtin.merge [Builtin.merge [.list [.list []]], Builtin.merge []] = .list [.list []] :=
  rfl

end Registry

end DataRules
