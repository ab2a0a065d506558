import DataRules.Eval.Engine
import DataRules.Rule.Paths
import Mathlib.Data.List.Basic
import Mathlib.Data.List.Induction

set_option autoImplicit false

/-!
# Occurrences: the paths of a rule and the reading they stand for

A rule writes out a path at each `var` whose first argument is a text or a number.
`Rule.occurrences` lists these as they come up, the same path as often as it does, and
`Rule.paths` is that list with nothing but the first occurrence of each path.  Whatever
the data context is, evaluating the `var` of a listed path reads the data at that path.
-/

namespace DataRules

namespace Rule

/-! ## Occurrences -/

/-- The text of a first argument that is a text or a number. -/
def spelled : List Rule → List String
  | .literal (.text s) :: _ => [s]
  | .literal (.number n) :: _ => [(Value.number n).toText]
  | _ => []

mutual

/-- The paths that a rule writes out, one for each `var`, in order. -/
def occurrences : Rule → List String
  | .literal _ => []
  | .list _ => []
  | .operation operator args =>
      if operator = varOperator then spelled args else allOccurrences args

/-- The paths that some rules write out, rule by rule. -/
def allOccurrences : List Rule → List String
  | [] => []
  | rule :: rules => rule.occurrences ++ allOccurrences rules

end

/-- The operation `var` on some arguments is the rule, or is found in an argument of an
operation other than `var`. -/
inductive Accesses (args : List Rule) : Rule → Prop where
  | var : Accesses args (.operation varOperator args)
  | argument {operator : String} {rules : List Rule} {rule : Rule}
      (hoperator : operator ≠ varOperator) (hrule : rule ∈ rules) (haccess : Accesses args rule) :
      Accesses args (.operation operator rules)

/-- How the listed paths of a rule come from those it writes out, and what they stand for
over a registry. -/
structure ListsOccurrences {σ : Type} (registry : Registry σ) (rule : Rule) : Prop where
  /-- All repetitions are left out. -/
  deduplicated : rule.paths = rule.occurrences.eraseDups
  /-- No path is listed twice. -/
  nodup : rule.paths.Nodup
  /-- What is listed is what occurs. -/
  mem_iff : ∀ p, p ∈ rule.paths ↔ p ∈ rule.occurrences
  /-- The paths are in the order of their first occurrences. -/
  order : rule.paths.Pairwise fun p q => rule.occurrences.idxOf p < rule.occurrences.idxOf q
  /-- An operation other than `var` lists what its arguments list, one after another,
  without repetitions. -/
  operation : ∀ {operator : String} {args : List Rule}, rule = .operation operator args →
    operator ≠ varOperator → rule.paths = (args.flatMap paths).eraseDups
  /-- A path is listed for a `var` that writes it out. -/
  accessed : ∀ p, p ∈ rule.paths ↔ ∃ args, Accesses args rule ∧ spelled args = [p]
  /-- On every data context that `var` reads the data at the path, and gives its next
  argument, or null, where nothing is found. -/
  read : ∀ {args : List Rule} {p : String}, Accesses args rule → spelled args = [p] →
    ∀ data : Value, registry.meaning (.operation varOperator args) data = do
      let values ← Control.evaluateAll (registry.meanings args.tail) data
      return (data.at? p).getD (values.headD .null)

/-! ## First occurrences -/

section FirstOccurrences

variable (l m : List String)

/-- One path more is added unless it occurred before. -/
theorem eraseDups_concat (p : String) : (l ++ [p]).eraseDups = addPath p l.eraseDups := by
  rw [List.eraseDups_append, List.removeAll, addPath, List.filter_cons, List.filter_nil]
  by_cases hp : p ∈ l
  · have hseen : p ∈ l.eraseDups := List.mem_eraseDups.mpr hp
    rw [if_neg (by simpa using hp), if_pos hseen, List.eraseDups_nil, List.append_nil]
  · have hnew : p ∉ l.eraseDups := fun h => hp (List.mem_eraseDups.mp h)
    rw [if_pos (by simpa using hp), if_neg hnew, List.eraseDups_cons, List.filter_nil,
      List.eraseDups_nil]

/-- Adding paths one by one to those seen so far leaves the repetitions out. -/
theorem foldl_addPath :
    m.foldl (fun seen p => addPath p seen) l.eraseDups = (l ++ m).eraseDups := by
  induction m generalizing l with
  | nil => rw [List.foldl_nil, List.append_nil]
  | cons p m ih =>
      rw [List.foldl_cons, ← eraseDups_concat, ih, List.append_assoc]
      rfl

/-- Repetitions may be left out of the front beforehand. -/
theorem eraseDups_append_left : (l.eraseDups ++ m).eraseDups = (l ++ m).eraseDups := by
  have hself : l.eraseDups.eraseDups = l.eraseDups := by
    induction l using List.reverseRecOn with
    | nil => rfl
    | append_singleton l p ih =>
        rw [eraseDups_concat, addPath]
        split
        · exact ih
        · next hnew =>
            rw [eraseDups_concat, ih, addPath, if_neg hnew]
  rw [← foldl_addPath, hself, foldl_addPath]

/-- Repetitions may be left out of the back beforehand. -/
theorem eraseDups_append_right : (l ++ m.eraseDups).eraseDups = (l ++ m).eraseDups := by
  induction m using List.reverseRecOn with
  | nil => rfl
  | append_singleton m p ih =>
      rw [← List.append_assoc, eraseDups_concat (l ++ m), ← ih, eraseDups_concat m, addPath,
        addPath]
      split
      · next hseen =>
          rw [if_pos (List.mem_eraseDups.mpr (List.mem_append_right l hseen))]
      · rw [← List.append_assoc, eraseDups_concat, addPath]

theorem eraseDups_flatMap {α : Type} (f : α → List String) (as : List α) :
    (as.flatMap fun a => (f a).eraseDups).eraseDups = (as.flatMap f).eraseDups := by
  induction as with
  | nil => rfl
  | cons a as ih =>
      rw [List.flatMap_cons, List.flatMap_cons, eraseDups_append_left, ← eraseDups_append_right,
        ih, eraseDups_append_right]

/-- What is left is in the order of the first occurrences. -/
theorem pairwise_eraseDups :
    l.eraseDups.Pairwise fun p q => l.idxOf p < l.idxOf q := by
  induction l using List.reverseRecOn with
  | nil => exact List.Pairwise.nil
  | append_singleton l p ih =>
      have hfront : l.eraseDups.Pairwise fun q r =>
          (l ++ [p]).idxOf q < (l ++ [p]).idxOf r := by
        refine ih.imp_of_mem fun {q r} hq hr hlt => ?_
        rwa [List.idxOf_append_of_mem (List.mem_eraseDups.mp hq),
          List.idxOf_append_of_mem (List.mem_eraseDups.mp hr)]
      rw [eraseDups_concat, addPath]
      split
      · exact hfront
      · next hnew =>
          rw [List.mem_eraseDups] at hnew
          refine List.pairwise_append.mpr ⟨hfront, List.pairwise_singleton _ _, ?_⟩
          intro q hq r hr
          obtain rfl := List.mem_singleton.mp hr
          have hlt : l.idxOf q < l.length := List.idxOf_lt_length_iff.mpr (List.mem_eraseDups.mp hq)
          rw [List.idxOf_append_of_mem (List.mem_eraseDups.mp hq), List.idxOf_append_of_notMem hnew]
          omega

end FirstOccurrences

/-! ## Listed paths -/

theorem allOccurrences_eq_flatMap (rules : List Rule) :
    allOccurrences rules = rules.flatMap occurrences := by
  induction rules with
  | nil => rfl
  | cons rule rules ih => rw [allOccurrences, List.flatMap_cons, ih]

theorem spelled_eq_toList (args : List Rule) : spelled args = (writtenPath? args).toList := by
  cases args with
  | nil => rfl
  | cons first others =>
      cases first with
      | literal v => cases v <;> rfl
      | _ => rfl

mutual

/-- What was seen before a rule is followed by the occurrences in the rule, one by one. -/
theorem addPaths_eq_foldl : (rule : Rule) → (seen : List String) →
    rule.addPaths seen = rule.occurrences.foldl (fun seen p => addPath p seen) seen
  | .literal _, seen => rfl
  | .list _, seen => rfl
  | .operation operator args, seen => by
      rw [addPaths, occurrences]
      split
      · rw [spelled_eq_toList]
        cases writtenPath? args <;> rfl
      · exact addAllPaths_eq_foldl args seen

theorem addAllPaths_eq_foldl : (rules : List Rule) → (seen : List String) →
    addAllPaths rules seen =
      (allOccurrences rules).foldl (fun seen p => addPath p seen) seen
  | [], seen => rfl
  | rule :: rules, seen => by
      rw [addAllPaths, allOccurrences, List.foldl_append, addPaths_eq_foldl rule,
        addAllPaths_eq_foldl rules]

end

theorem paths_eq_eraseDups (rule : Rule) : rule.paths = rule.occurrences.eraseDups := by
  have hfold := foldl_addPath [] rule.occurrences
  rw [List.eraseDups_nil, List.nil_append] at hfold
  rw [paths, addPaths_eq_foldl, hfold]

theorem paths_operation {operator : String} (hoperator : operator ≠ varOperator)
    (args : List Rule) : (operation operator args).paths = (args.flatMap paths).eraseDups := by
  have hpaths : paths = fun rule => rule.occurrences.eraseDups := funext paths_eq_eraseDups
  rw [paths_eq_eraseDups, occurrences, if_neg hoperator, allOccurrences_eq_flatMap, hpaths,
    eraseDups_flatMap]

/-! ## Where a path comes from -/

mutual

theorem mem_occurrences_iff {p : String} : (rule : Rule) →
    (p ∈ rule.occurrences ↔ ∃ args, Accesses args rule ∧ spelled args = [p])
  | .literal v => by
      refine ⟨fun h => absurd h List.not_mem_nil, ?_⟩
      rintro ⟨args, haccess, -⟩
      cases haccess
  | .list items => by
      refine ⟨fun h => absurd h List.not_mem_nil, ?_⟩
      rintro ⟨args, haccess, -⟩
      cases haccess
  | .operation operator args => by
      rw [occurrences]
      split
      · next hvar =>
          subst hvar
          constructor
          · intro hp
            rw [spelled_eq_toList, Option.mem_toList] at hp
            exact ⟨args, .var, by rw [spelled_eq_toList, Option.mem_def.mp hp]; rfl⟩
          · rintro ⟨args', haccess, hspelled⟩
            cases haccess with
            | var => exact hspelled ▸ List.mem_singleton.mpr rfl
            | argument hoperator => exact absurd rfl hoperator
      · next hoperator =>
          rw [mem_allOccurrences_iff args]
          constructor
          · rintro ⟨rule, hrule, args', haccess, hspelled⟩
            exact ⟨args', .argument hoperator hrule haccess, hspelled⟩
          · rintro ⟨args', haccess, hspelled⟩
            cases haccess with
            | var => exact absurd rfl hoperator
            | argument _ hrule haccess => exact ⟨_, hrule, args', haccess, hspelled⟩

theorem mem_allOccurrences_iff {p : String} : (rules : List Rule) →
    (p ∈ allOccurrences rules ↔
      ∃ rule ∈ rules, ∃ args, Accesses args rule ∧ spelled args = [p])
  | [] => by simp [allOccurrences]
  | rule :: rules => by
      rw [allOccurrences, List.mem_append, mem_occurrences_iff rule, mem_allOccurrences_iff rules]
      simp only [List.mem_cons, exists_eq_or_imp]

end

end Rule

namespace Registry

variable {σ : Type}

/-- A first argument that spells out a path is evaluated to a value with that text. -/
theorem exists_of_spelled {args : List Rule} {p : String} (h : Rule.spelled args = [p]) :
    ∃ path others, args = .literal path :: others ∧ path.toText = p ∧ path ≠ .null := by
  unfold Rule.spelled at h
  split at h
  · next s others => exact ⟨_, _, rfl, List.singleton_inj.mp h, Value.noConfusion⟩
  · next n others => exact ⟨_, _, rfl, List.singleton_inj.mp h, Value.noConfusion⟩
  · cases h

/-- Where the first argument is a value other than null, its text is the path. -/
theorem read_cons {path : Value} (hpath : path ≠ .null) (data : Value) (values : List Value) :
    data.read (path :: values) = (data.at? path.toText).getD (values.headD .null) := by
  have hdefault : (path :: values).getD 1 .null = values.headD .null := by
    cases values <;> rfl
  cases path with
  | null => exact absurd rfl hpath
  | _ => rw [← hdefault]; rfl

theorem meaning_var {args : List Rule} {p : String} (h : Rule.spelled args = [p])
    (registry : Registry σ) (data : Value) :
    registry.meaning (.operation Rule.varOperator args) data =
      Control.evaluateAll (registry.meanings args.tail) data >>= fun values =>
        pure ((data.at? p).getD (values.headD .null)) := by
  obtain ⟨path, others, rfl, rfl, hpath⟩ := exists_of_spelled h
  have hvalues : Control.evaluateAll (registry.meanings (.literal path :: others)) data =
      Control.evaluateAll (registry.meanings others) data >>= fun values =>
        pure (path :: values) := by
    rw [Control.evaluateAll, meanings, List.mapM_cons]
    rfl
  rw [meaning]
  show Keyword.reading Value.read _ data = _
  rw [Keyword.reading, hvalues, bind_assoc]
  simp only [pure_bind, read_cons hpath, List.tail_cons]

end Registry

/-- The listed paths of every rule are so, over every registry. -/
theorem Rule.listsOccurrences {σ : Type} (registry : Registry σ) (rule : Rule) :
    rule.ListsOccurrences registry where
  deduplicated := rule.paths_eq_eraseDups
  nodup := by
    rw [paths_eq_eraseDups]
    refine (pairwise_eraseDups rule.occurrences).imp ?_
    rintro p _ hlt rfl
    exact Nat.lt_irrefl _ hlt
  mem_iff := by
    intro p
    rw [paths_eq_eraseDups, List.mem_eraseDups]
  order := by
    rw [paths_eq_eraseDups]
    exact pairwise_eraseDups rule.occurrences
  operation := by
    rintro operator args rfl hoperator
    exact paths_operation hoperator args
  accessed := by
    intro p
    rw [paths_eq_eraseDups, List.mem_eraseDups, mem_occurrences_iff]
  read := by
    intro args p _ hspelled data
    exact Registry.meaning_var hspelled registry data

end DataRules
