import DataRules.Proofs.Eval.Builtins
import DataRules.Rule.Paths

set_option autoImplicit false

/-!
# Dependencies: the data that a readable rule depends on

`Rule.paths` lists paths without evaluating.  For a class of rules whose reading
of the data is written out, the list is complete: with the built-in operations,
such a rule does the same on two data contexts that read the same at each listed
path.  What an iteration does to the items of its source is not restricted, since
the body is given the items and not the data context.
-/

namespace DataRules

namespace Rule

/-- A rule without operations: a literal, or a list of such rules. -/
inductive Plain : Rule → Prop where
  | literal (v : Value) : Plain (.literal v)
  | list {items : List Rule} (hitems : ∀ item ∈ items, Plain item) : Plain (.list items)

/-- A rule whose reading of the data context is written out. -/
inductive Readable : Rule → Prop where
  /-- a literal, or a list without operations -/
  | plain {rule : Rule} (hplain : Plain rule) : Readable rule
  /-- data at a path that is a text or a number, with literals after it -/
  | var {path : Value} (hpath : (∃ s, path = .text s) ∨ ∃ n, path = .number n)
      (others : List Value) :
      Readable (.operation "var" (.literal path :: others.map .literal))
  /-- an iteration over a readable source, with a readable initial value if any;
  the body and the arguments that are not evaluated may be anything -/
  | iteration {name : String} {source : Rule} {others : List Rule}
      (hname : name ∈ ["filter", "map", "reduce", "all", "none", "some"])
      (hsource : Readable source)
      (hinitial : name = "reduce" → ∀ initial, others[1]? = some initial → Readable initial) :
      Readable (.operation name (source :: others))
  /-- any other operation on readable arguments -/
  | operation {name : String} {args : List Rule}
      (hname : name ∉ ["var", "missing", "missing_some"])
      (hargs : ∀ arg ∈ args, Readable arg) : Readable (.operation name args)

/-- Data contexts that read the same at the paths of an operation do so at those
of each argument, `var` apart. -/
theorem at?_eq_on_argument {name : String} (hname : name ≠ varOperator) {args : List Rule}
    {data data' : Value} (h : ∀ p ∈ (operation name args).paths, data.at? p = data'.at? p)
    {arg : Rule} (harg : arg ∈ args) : ∀ p ∈ arg.paths, data.at? p = data'.at? p := by
  intro p hp
  exact h p ((mem_paths_operation hname).mpr ⟨arg, harg, hp⟩)

end Rule

/-! ## The evaluator's operators by name -/

namespace Keyword

theorem mem_table_of_ofName? {name : String} {keyword : Keyword}
    (h : ofName? name = some keyword) : (name, keyword) ∈ table := by
  obtain ⟨front, back, htable, -⟩ := List.lookup_eq_some_iff.mp h
  rw [htable]
  exact List.mem_append_right front List.mem_cons_self

/-- The operators that are given the data context have one of three names. -/
theorem readsData_eq_false {name : String} {keyword : Keyword}
    (h : ofName? name = some keyword) (hname : name ∉ ["var", "missing", "missing_some"]) :
    keyword.readsData = false := by
  have htable : ∀ entry ∈ table, entry.2.readsData = true →
      entry.1 ∈ ["var", "missing", "missing_some"] := by decide
  rw [Bool.eq_false_iff]
  exact fun hreads => hname (htable (name, keyword) (mem_table_of_ofName? h) hreads)

/-- Six names are those of iterations, one of which is a reduction. -/
theorem exists_iteration {name : String}
    (h : name ∈ ["filter", "map", "reduce", "all", "none", "some"]) :
    ∃ keyword, ofName? name = some keyword ∧ keyword.iterates = true ∧
      (keyword = .reduce → name = "reduce") := by
  have htable : ∀ entry ∈ table, entry.2 = .reduce → entry.1 = "reduce" := by decide
  have hnames : ∀ name ∈ ["filter", "map", "reduce", "all", "none", "some"],
      (ofName? name).any iterates = true := by decide
  obtain ⟨keyword, hkeyword, hiterates⟩ := (Option.any_eq_true _ _).mp (hnames name h)
  exact ⟨keyword, hkeyword, hiterates, htable (name, keyword) (mem_table_of_ofName? hkeyword)⟩

end Keyword

/-! ## Readable rules -/

namespace Registry

variable {σ : Type}

/-- Related meanings, rule by rule. -/
theorem forall₂_meanings {registry : Registry σ} {rules : List Rule} {data data' : Value}
    (h : ∀ rule ∈ rules, registry.meaning rule data = registry.meaning rule data') :
    List.Forall₂ ((Lifting.same σ).Alike .equality data data') (registry.meanings rules)
      (registry.meanings rules) := by
  rw [meanings_eq_map, List.forall₂_map_left_iff, List.forall₂_map_right_iff, List.forall₂_same]
  exact fun rule hrule => Lifting.same_iff.mpr (h rule hrule)

/-- An argument does the same where the rule in its place, if any, does. -/
theorem argument_meanings_eq {registry : Registry σ} {rules : List Rule} {i : Nat}
    {data data' : Value}
    (h : ∀ rule, rules[i]? = some rule →
      registry.meaning rule data = registry.meaning rule data') :
    Control.argument (registry.meanings rules) i data =
      Control.argument (registry.meanings rules) i data' := by
  unfold Control.argument
  rw [meanings_eq_map, List.getD_eq_getElem?_getD, List.getElem?_map]
  cases hrule : rules[i]? with
  | none => rfl
  | some rule => exact h rule hrule

/-- A rule without operations does not look at the data. -/
theorem meaning_of_plain (registry : Registry σ) {rule : Rule} (h : rule.Plain)
    (data data' : Value) : registry.meaning rule data = registry.meaning rule data' := by
  induction h with
  | literal v => rfl
  | list _ ih =>
      have hvalues := Lifting.evaluateAll (forall₂_meanings ih)
      rw [meaning]
      refine Lifting.same_iff.mp ((Lifting.same σ).bind hvalues ?_)
      intro vs vs' hvs
      exact (Lifting.same σ).pure (Value.Congruence.equality.list hvs)

/-- Literal arguments have themselves as values. -/
theorem evaluateAll_literals (registry : Registry σ) (vs : List Value) (data : Value) :
    Control.evaluateAll (registry.meanings (vs.map .literal)) data = pure vs := by
  unfold Control.evaluateAll
  induction vs with
  | nil => rfl
  | cons v vs ih =>
      rw [List.map_cons, meanings, List.mapM_cons, ih]
      rfl

/-- A `var` on a written path does the same where the path reads the same. -/
theorem meaning_var_eq (registry : Registry σ) {path : Value} {p : String} {others : List Value}
    (hpath : Rule.writtenPath? (.literal path :: others.map .literal) = some p)
    {data data' : Value} (h : data.at? p = data'.at? p) :
    registry.meaning (.operation "var" (.literal path :: others.map .literal)) data =
      registry.meaning (.operation "var" (.literal path :: others.map .literal)) data' := by
  have hread : data.read (path :: others) = data'.read (path :: others) := by
    cases path with
    | text s =>
        obtain rfl := Option.some.inj hpath
        simp only [Value.read, List.headD_cons, Value.toText, h]
    | number n =>
        obtain rfl := Option.some.inj hpath
        simp only [Value.read, List.headD_cons, Value.toText, h]
    | _ => cases hpath
  have hmeaning : ∀ context, registry.meaning
      (.operation "var" (.literal path :: others.map .literal)) context =
      pure (context.read (path :: others)) := by
    intro context
    have hvalues := evaluateAll_literals registry (path :: others) context
    rw [List.map_cons] at hvalues
    rw [meaning]
    show Keyword.reading Value.read _ context = _
    rw [Keyword.reading, hvalues, pure_bind]
  rw [hmeaning, hmeaning, hread]

/-- Over a registry whose operations are not given the data context, a readable
rule does the same where its paths read the same. -/
theorem meaning_eq_of_readable {registry : Registry σ}
    (hregistry : ∀ name data data' args,
      registry.invoke name data args = registry.invoke name data' args)
    {rule : Rule} (hrule : rule.Readable) {data data' : Value}
    (h : ∀ p ∈ rule.paths, data.at? p = data'.at? p) :
    registry.meaning rule data = registry.meaning rule data' := by
  have hbody : ∀ body : Meaning σ, (Lifting.same σ).AlikeOnItems .equality body body := by
    rintro body item _ rfl
    exact Lifting.same_iff.mpr rfl
  induction hrule with
  | plain hplain => exact meaning_of_plain registry hplain data data'
  | @var path hpath others =>
      have hwritten : ∃ p, Rule.writtenPath? (.literal path :: others.map .literal) = some p := by
        rcases hpath with ⟨s, rfl⟩ | ⟨n, rfl⟩
        · exact ⟨s, rfl⟩
        · exact ⟨n.text, rfl⟩
      obtain ⟨p, hp⟩ := hwritten
      have hpaths := Rule.paths_var hp
      refine meaning_var_eq registry hp (h p ?_)
      exact hpaths ▸ List.mem_singleton.mpr rfl
  | @iteration name source others hname _ _ ihsource ihinitial =>
      obtain ⟨keyword, hkeyword, hiterates, hreduce⟩ := Keyword.exists_iteration hname
      have hvar : name ≠ Rule.varOperator := by
        rintro rfl
        exact absurd hname (by decide)
      have hsource := ihsource (Rule.at?_eq_on_argument hvar h List.mem_cons_self)
      rw [meaning, operator, hkeyword]
      refine Lifting.same_iff.mp (Keyword.iteration_alike hiterates ?_ (hbody _) ?_)
      · exact Lifting.same_iff.mpr hsource
      · intro hkind
        refine Lifting.same_iff.mpr (argument_meanings_eq ?_)
        intro initial hthird
        have hmem : initial ∈ source :: others := List.mem_of_getElem? hthird
        exact ihinitial (hreduce hkind) initial hthird (Rule.at?_eq_on_argument hvar h hmem)
  | @operation name args hname _ ih =>
      have hvar : name ≠ Rule.varOperator := by
        rintro rfl
        exact hname (by decide)
      have hsame : ∀ arg ∈ args, registry.meaning arg data = registry.meaning arg data' := by
        intro arg harg
        exact ih arg harg (Rule.at?_eq_on_argument hvar h harg)
      have hargs := forall₂_meanings hsame
      rw [meaning, operator]
      cases hkeyword : Keyword.ofName? name with
      | none =>
          refine Lifting.same_iff.mp ((Lifting.same σ).bind (Lifting.evaluateAll hargs) ?_)
          intro vs vs' hvs
          obtain rfl := Value.Congruence.eq_of_equality hvs
          exact Lifting.same_iff.mpr (hregistry name data data' vs)
      | some keyword =>
          have hreads := Keyword.readsData_eq_false hkeyword hname
          exact Lifting.same_iff.mp (Keyword.meaning_alike hreads hargs (hbody _))

/-- The paths of a readable rule are all it depends on: over the built-in
operations, the rule has the same value or error, and the same log, on any two
data contexts that read the same at each of them, also where nothing is found.
The rest of the data makes no difference. -/
theorem apply_builtins_eq_of_paths {rule : Value} (hrule : (Rule.ofValue rule).Readable)
    {data data' : Value} (h : ∀ p ∈ (Rule.ofValue rule).paths, data.at? p = data'.at? p) :
    (builtins : Registry σ).apply rule data = (builtins : Registry σ).apply rule data' :=
  meaning_eq_of_readable invoke_builtins_data hrule h

/-- Lists the names of the members, if there are any. -/
def listNames : Value :=
  .object [("if", .list [.object [("var", .text "members")],
    .object [("map", .list [.object [("var", .text "members")],
      .object [("var", .text "name")]])]])]

/-- What else is known makes no difference to the names. -/
theorem apply_builtins_eq_of_paths_listNames :
    (Rule.ofValue listNames).Readable ∧
    (Rule.ofValue listNames).paths = ["members", "name"] ∧
    (builtins : Registry Unit).apply listNames
        (.object [("members", .list [.object [("name", .text "a")]])]) =
      (builtins : Registry Unit).apply listNames
        (.object [("members", .list [.object [("name", .text "a")]]), ("owner", .text "b")]) := by
  have hmembers : (Rule.ofValue (.object [("var", .text "members")])).Readable :=
    .var (.inl ⟨"members", rfl⟩) []
  have hmap : (Rule.ofValue (.object [("map", .list [.object [("var", .text "members")],
      .object [("var", .text "name")]])])).Readable :=
    .iteration (by decide) hmembers fun hreduce => absurd hreduce (by decide)
  have hrule : (Rule.ofValue listNames).Readable := by
    refine .operation (by decide) ?_
    intro arg harg
    rcases List.mem_pair.mp harg with rfl | rfl
    · exact hmembers
    · exact hmap
  have hpaths : (Rule.ofValue listNames).paths = ["members", "name"] := by rfl
  refine ⟨hrule, hpaths, apply_builtins_eq_of_paths hrule ?_⟩
  intro p hp
  rw [hpaths] at hp
  rcases List.mem_pair.mp hp with rfl | rfl
  · rfl
  · rfl

end Registry

end DataRules
