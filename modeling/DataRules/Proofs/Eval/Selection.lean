import DataRules.Proofs.Eval.Frugality
import DataRules.Proofs.Eval.Iteration

set_option autoImplicit false

/-!
# Selection: what `map` and `filter` say about the other iterations

`map` evaluates its body on every item, and the quantifiers only as far as they need to.
So wherever `map` or `filter` succeeds, what the quantifiers answer can be read off the
values or off the items that were kept, and filtering twice is filtering once by the
conjunction of the bodies.  The other way round a quantifier may answer where `map` fails.
-/

namespace DataRules

/-- A sequence gives a value when its parts do, one after the other. -/
theorem Eval.result_bind_eq_ok_iff {α β : Type} {m : Eval Unit α} {f : α → Eval Unit β} {b : β} :
    (m >>= f).outcome.result = .ok b ↔
      ∃ a, m.outcome.result = .ok a ∧ (f a).outcome.result = .ok b := by
  rw [outcome_bind]
  cases hm : m.outcome.result with
  | error error => simp [Outcome.andThen_of_error hm]
  | ok a => simp [Outcome.andThen_of_ok hm]

theorem Eval.result_pure_eq_ok_iff {α : Type} {a b : α} :
    (pure a : Eval Unit α).outcome.result = .ok b ↔ a = b := by
  rw [outcome_pure, Except.ok.injEq]

namespace Control

/-! ## Values and the items they keep -/

section

variable {items values : List Value}

theorem kept_sublist (items values : List Value) : (kept items values).Sublist items := by
  induction items generalizing values with
  | nil => exact List.nil_sublist _
  | cons item items ih =>
      cases values with
      | nil => exact List.nil_sublist _
      | cons v values =>
          rw [kept_cons]
          split
          · exact (ih values).cons_cons item
          · exact (ih values).cons item

theorem length_kept (h : values.length = items.length) :
    (kept items values).length = values.countP Value.isTruthy := by
  induction items generalizing values with
  | nil =>
      obtain rfl := List.length_eq_zero_iff.mp h
      rfl
  | cons item items ih =>
      obtain ⟨v, rest, rfl⟩ := List.exists_cons_of_length_eq_add_one h
      have hrest := ih (Nat.succ.inj h)
      rw [kept_cons, List.countP_cons]
      split
      · rw [List.length_cons, hrest]
      · exact hrest

/-- Nothing is kept when no value is true. -/
theorem isEmpty_kept (h : values.length = items.length) :
    (kept items values).isEmpty = !values.any (Value.hasTruth true) := by
  rw [Bool.eq_iff_iff, List.isEmpty_iff_length_eq_zero, length_kept h, List.countP_eq_zero]
  simp [Value.hasTruth]

/-- All is kept when no value is false. -/
theorem kept_eq_self_iff (h : values.length = items.length) :
    kept items values = items ↔ values.any (Value.hasTruth false) = false := by
  rw [← (kept_sublist items values).length_eq, length_kept h, ← h, List.countP_eq_length]
  simp [Value.hasTruth]

end

/-! ## Iterations that succeed -/

variable {body : Meaning Unit} {items values : List Value}

theorem length_of_mapItems (h : (mapItems body items).outcome.result = .ok values) :
    values.length = items.length := by
  induction items generalizing values with
  | nil =>
      obtain rfl := Eval.result_pure_eq_ok_iff.mp h
      rfl
  | cons item items ih =>
      obtain ⟨v, -, h⟩ := Eval.result_bind_eq_ok_iff.mp h
      obtain ⟨rest, hrest, h⟩ := Eval.result_bind_eq_ok_iff.mp h
      obtain rfl := Eval.result_pure_eq_ok_iff.mp h
      rw [List.length_cons, List.length_cons, ih hrest]

/-- A search gives an answer where every item has a value, and it is in the values. -/
theorem result_search (b : Bool) (h : (mapItems body items).outcome.result = .ok values) :
    (search b body items).outcome.result = .ok (values.any (Value.hasTruth b)) := by
  induction items generalizing values with
  | nil =>
      obtain rfl := Eval.result_pure_eq_ok_iff.mp h
      rfl
  | cons item items ih =>
      obtain ⟨v, hv, h⟩ := Eval.result_bind_eq_ok_iff.mp h
      obtain ⟨rest, hrest, h⟩ := Eval.result_bind_eq_ok_iff.mp h
      obtain rfl := Eval.result_pure_eq_ok_iff.mp h
      rw [search, Eval.result_bind_eq_ok_iff]
      refine ⟨v, hv, ?_⟩
      rw [List.any_cons, Value.hasTruth]
      split
      · next htruth => rw [htruth, beq_self_eq_true, Bool.true_or, Eval.outcome_pure]
      · next htruth => rw [beq_eq_false_iff_ne.mpr htruth, Bool.false_or, ih hrest]

/-- Filtering gives the items kept by the values of mapping, where mapping has values. -/
theorem result_filterItems_iff {first : List Value} :
    (filterItems body items).outcome.result = .ok first ↔
      ∃ values, (mapItems body items).outcome.result = .ok values ∧ kept items values = first := by
  simp only [filterItems_eq_mapItems, Eval.result_bind_eq_ok_iff, Eval.result_pure_eq_ok_iff]

theorem result_filterItems_cons_iff {item : Value} {first : List Value} :
    (filterItems body (item :: items)).outcome.result = .ok first ↔
      ∃ v, (body item).outcome.result = .ok v ∧
        ∃ rest, (filterItems body items).outcome.result = .ok rest ∧
          (if v.isTruthy then item :: rest else rest) = first := by
  simp only [filterItems, Eval.result_bind_eq_ok_iff, Eval.result_pure_eq_ok_iff]

/-- A conjunction of two gives the value of the second where the first is true, and that
of the first where it is not. -/
theorem result_conjunction_pair_iff {other : Meaning Unit} {item w : Value} :
    (firstWith false [body, other] item).outcome.result = .ok w ↔
      ∃ v, (body item).outcome.result = .ok v ∧
        if v.isTruthy then (other item).outcome.result = .ok w else v = w := by
  rw [firstWith, Eval.result_bind_eq_ok_iff]
  refine exists_congr fun v => and_congr_right fun _ => ?_
  cases hv : v.isTruthy with
  | true => simp [firstWith]
  | false => simp [Eval.result_pure_eq_ok_iff]

/-- Filtering what was filtered is filtering by both bodies, the second being evaluated
only where the first is true. -/
theorem result_filterItems_filterItems_iff {other : Meaning Unit} {last : List Value} :
    (∃ first, (filterItems body items).outcome.result = .ok first ∧
        (filterItems other first).outcome.result = .ok last) ↔
      (filterItems (firstWith false [body, other]) items).outcome.result = .ok last := by
  induction items generalizing last with
  | nil =>
      constructor
      · rintro ⟨first, hfirst, hlast⟩
        obtain rfl := Eval.result_pure_eq_ok_iff.mp hfirst
        exact hlast
      · intro hlast
        exact ⟨[], rfl, hlast⟩
  | cons item items ih =>
      simp only [result_filterItems_cons_iff, result_conjunction_pair_iff]
      constructor
      · rintro ⟨_, ⟨v, hv, rest, hrest, rfl⟩, hlast⟩
        cases htruth : v.isTruthy with
        | true =>
            rw [htruth, if_pos rfl, result_filterItems_cons_iff] at hlast
            obtain ⟨w, hw, left, hleft, hlast⟩ := hlast
            exact ⟨w, ⟨v, hv, by rwa [if_pos htruth]⟩, left, ih.mp ⟨rest, hrest, hleft⟩, hlast⟩
        | false =>
            rw [htruth, if_neg Bool.false_ne_true] at hlast
            have hfirst : ¬v.isTruthy = true := Bool.eq_false_iff.mp htruth
            exact ⟨v, ⟨v, hv, by rw [if_neg hfirst]⟩, last, ih.mp ⟨rest, hrest, hlast⟩,
              by rw [if_neg hfirst]⟩
      · rintro ⟨w, ⟨v, hv, hw⟩, left, hboth, hlast⟩
        obtain ⟨rest, hrest, hleft⟩ := ih.mpr hboth
        refine ⟨_, ⟨v, hv, rest, hrest, rfl⟩, ?_⟩
        cases htruth : v.isTruthy with
        | true =>
            rw [htruth, if_pos rfl] at hw
            rw [if_pos rfl, result_filterItems_cons_iff]
            exact ⟨w, hw, left, hleft, hlast⟩
        | false =>
            rw [htruth, if_neg Bool.false_ne_true] at hw
            subst hw
            rw [htruth, if_neg Bool.false_ne_true] at hlast
            rw [if_neg Bool.false_ne_true, hleft, hlast]

end Control

namespace Registry

open DataRules.Control

variable (registry : Registry Unit)

/-- What the iterations over the items of a source say about one another.  `source` is a
rule that evaluates to a list of the items on the data context. -/
structure Selects (source body data : Value) (items : List Value) : Prop where
  /-- Where `map` succeeds, `filter` keeps the items with true values, with the same log. -/
  filtered : ∀ {values : List Value},
    (registry.outcome (iteration "map" source body) data).result = .ok (.list values) →
      values.length = items.length ∧
      registry.outcome (iteration "filter" source body) data =
        ⟨.ok (.list (kept items values)),
          (registry.outcome (iteration "map" source body) data).log⟩
  /-- Where `filter` succeeds, the quantifiers say whether it kept something, nothing, and
  everything there is. -/
  quantified : ∀ {left : List Value},
    (registry.outcome (iteration "filter" source body) data).result = .ok (.list left) →
      (registry.outcome (iteration "some" source body) data).result =
        .ok (.bool (!left.isEmpty)) ∧
      (registry.outcome (iteration "none" source body) data).result =
        .ok (.bool left.isEmpty) ∧
      ∃ b, (registry.outcome (iteration "all" source body) data).result = .ok (.bool b) ∧
        (b = true ↔ items ≠ [] ∧ left = items)
  /-- Filtering twice succeeds where filtering by the conjunction does, with the same list. -/
  composed : ∀ other v : Value,
    (registry.outcome (iteration "filter" (iteration "filter" source body) other) data).result =
        .ok v ↔
      (registry.outcome (iteration "filter" source (conjunctionOf [body, other])) data).result =
        .ok v

variable {registry} {source data : Value} {items : List Value}

/-- An iteration ends as its operator does on the items, after the log of the source. -/
theorem outcome_iteration {name : String} (hname : name ∈ iterators)
    (hsource : (registry.outcome source data).result = .ok (.list items)) (body : Value) :
    registry.outcome (iteration name source body) data =
      ⟨(registry.iterateOver name body (.list items)).outcome.result,
        (registry.outcome source data).log ++
          (registry.iterateOver name body (.list items)).outcome.log⟩ := by
  rw [outcome, apply_iteration registry body hname, Eval.outcome_bind]
  exact Outcome.andThen_of_ok hsource _

theorem result_iterateOver_map_iff {body v : Value} :
    (registry.iterateOver "map" body (.list items)).outcome.result = .ok v ↔
      ∃ values, (mapItems (registry.apply body) items).outcome.result = .ok values ∧
        .list values = v := by
  simp only [iterateOver_map, Eval.result_bind_eq_ok_iff, Eval.result_pure_eq_ok_iff]

theorem result_iterateOver_filter_iff {body v : Value} :
    (registry.iterateOver "filter" body (.list items)).outcome.result = .ok v ↔
      ∃ left, (filterItems (registry.apply body) items).outcome.result = .ok left ∧
        .list left = v := by
  simp only [iterateOver_filter, Eval.result_bind_eq_ok_iff, Eval.result_pure_eq_ok_iff]

/-- On items with values, `filter` does what `map` does and gives what is kept. -/
theorem outcome_iterateOver_filter {body : Value} {values : List Value}
    (hvalues : (mapItems (registry.apply body) items).outcome.result = .ok values) :
    (registry.iterateOver "filter" body (.list items)).outcome =
      ⟨.ok (.list (kept items values)),
        (registry.iterateOver "map" body (.list items)).outcome.log⟩ := by
  have hmapped : (mapItems (registry.apply body) items).outcome =
      ⟨.ok values, (mapItems (registry.apply body) items).outcome.log⟩ := by rw [← hvalues]
  rw [iterateOver_filter, filterItems_eq_mapItems, iterateOver_map, Eval.log_bind_pure,
    Eval.outcome_bind_pure (Eval.outcome_bind_pure hmapped _)]

/-- The quantifiers on items with values. -/
theorem result_iterateOver_all (body : Value) {values : List Value}
    (hvalues : (mapItems (registry.apply body) items).outcome.result = .ok values) :
    ∃ b, (registry.iterateOver "all" body (.list items)).outcome.result = .ok (.bool b) ∧
      (b = true ↔ items ≠ [] ∧ kept items values = items) := by
  have hkept := kept_eq_self_iff (length_of_mapItems hvalues)
  by_cases hitems : items = []
  · subst hitems
    exact ⟨false, by rw [iterateOver_all_nil, Eval.outcome_pure], by simp⟩
  · refine ⟨!values.any (Value.hasTruth false), ?_, ?_⟩
    · rw [iterateOver_all registry body hitems, Eval.result_bind_eq_ok_iff]
      exact ⟨_, result_search false hvalues, rfl⟩
    · rw [hkept, Bool.not_eq_true']
      exact (and_iff_right hitems).symm

/-- The iterations over the items of any source agree so. -/
theorem selects (hsource : (registry.outcome source data).result = .ok (.list items))
    (body : Value) : Selects registry source body data items where
  filtered := by
    intro values hmap
    have hmapOutcome := outcome_iteration (by decide : "map" ∈ iterators) hsource body
    rw [hmapOutcome] at hmap
    obtain ⟨mapped, hmapped, hlist⟩ := result_iterateOver_map_iff.mp hmap
    obtain rfl := Value.list.inj hlist
    refine ⟨length_of_mapItems hmapped, ?_⟩
    rw [outcome_iteration (by decide) hsource, hmapOutcome, outcome_iterateOver_filter hmapped]
  quantified := by
    intro left hfilter
    rw [outcome_iteration (by decide) hsource] at hfilter
    obtain ⟨first, hfirst, hlist⟩ := result_iterateOver_filter_iff.mp hfilter
    obtain rfl := Value.list.inj hlist
    obtain ⟨values, hvalues, rfl⟩ := result_filterItems_iff.mp hfirst
    have hsearch := result_search true hvalues
    have hempty := isEmpty_kept (length_of_mapItems hvalues)
    refine ⟨?_, ?_, ?_⟩
    · rw [outcome_iteration (by decide) hsource, iterateOver_some, Eval.result_bind_eq_ok_iff]
      exact ⟨_, hsearch, by rw [hempty, Bool.not_not]; rfl⟩
    · rw [outcome_iteration (by decide) hsource, iterateOver_none, Eval.result_bind_eq_ok_iff]
      exact ⟨_, hsearch, by rw [hempty]; rfl⟩
    · rw [outcome_iteration (by decide) hsource]
      exact result_iterateOver_all body hvalues
  composed := by
    intro other v
    have hfilter := outcome_iteration (by decide : "filter" ∈ iterators) hsource body
    rw [outcome_iteration (by decide) hsource, result_iterateOver_filter_iff, apply_conjunctionOf,
      List.map_cons, List.map_cons, List.map_nil]
    simp only [← result_filterItems_filterItems_iff]
    rw [outcome, apply_iteration registry other (by decide), Eval.result_bind_eq_ok_iff,
      outcome_apply, hfilter]
    simp only [result_iterateOver_filter_iff]
    constructor
    · rintro ⟨_, ⟨first, hfirst, rfl⟩, hlast⟩
      obtain ⟨last, hlast, hv⟩ := result_iterateOver_filter_iff.mp hlast
      exact ⟨last, ⟨first, hfirst, hlast⟩, hv⟩
    · rintro ⟨last, ⟨first, hfirst, hlast⟩, hv⟩
      exact ⟨_, ⟨first, hfirst, rfl⟩, result_iterateOver_filter_iff.mpr ⟨last, hlast, hv⟩⟩

/-- Two texts, one of them empty. -/
def twoTexts : Value := .list [.text "a", .text ""]

/-- The rule that logs the data context and gives it. -/
def loggedWhole : Value := .object [("log", .list [.object [("var", .text "")]])]

/-- Of the two texts the empty one is not kept, but it is looked at, and `none` is false. -/
theorem selects_twoTexts :
    (builtins.outcome twoTexts .null).result = .ok twoTexts ∧
    (builtins.outcome (iteration "map" twoTexts loggedWhole) .null).result = .ok twoTexts ∧
    builtins.outcome (iteration "filter" twoTexts loggedWhole) .null =
      ⟨.ok (.list [.text "a"]), [.text "a", .text ""]⟩ ∧
    (builtins.outcome (iteration "none" twoTexts loggedWhole) .null).result =
      .ok (.bool false) := by
  have hsource : (builtins.outcome twoTexts .null).result = .ok twoTexts := by rfl
  have hmap : (builtins.outcome (iteration "map" twoTexts loggedWhole) .null).result =
      .ok twoTexts := by rfl
  have hselects : Selects builtins twoTexts loggedWhole .null [.text "a", .text ""] :=
    selects hsource loggedWhole
  obtain ⟨-, hfilter⟩ := hselects.filtered hmap
  have hlog : (builtins.outcome (iteration "map" twoTexts loggedWhole) .null).log =
      [.text "a", .text ""] := by rfl
  have hkept : kept [.text "a", .text ""] [.text "a", .text ""] = [.text "a"] := by rfl
  rw [hlog, hkept] at hfilter
  have hleft : (builtins.outcome (iteration "filter" twoTexts loggedWhole) .null).result =
      .ok (.list [.text "a"]) := by rw [hfilter]
  exact ⟨hsource, hmap, hfilter, (hselects.quantified hleft).2.1⟩

end Registry

end DataRules
