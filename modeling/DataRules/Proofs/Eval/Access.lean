import DataRules.Eval.Engine
import DataRules.Proofs.Value.Chains

set_option autoImplicit false

/-!
# Access: what `var` reads from the data context

The rule `{"var": path}` gives the part at the end of the chain that is written as the
path, and null where no such chain leads anywhere; `{"var": [path, default]}` evaluates
its default in either case and gives it in the second one only.  What a path leads to is
given as it is, be it null, zero, false or empty.
-/

namespace DataRules.Registry

open Value (HasPart WrittenAs)

variable {σ : Type}

/-- The rule that reads the data context at a path. -/
def access (path : String) : Value := .object [("var", .text path)]

/-- The rule that reads the data context at a path, with a default. -/
def accessOr (path : String) (default : Value) : Value :=
  .object [("var", .list [.text path, default])]

/-- How the parts of a data context are addressed. -/
structure Addresses (registry : Registry σ) (data : Value) : Prop where
  /-- A path gives the part at the end of the chain that is written so. -/
  reached : ∀ {chain : List Value.Step} {path : String} {part : Value}, path ≠ "" →
    WrittenAs chain path → HasPart data chain part →
    registry.apply (access path) data = pure part ∧
      ∀ default, registry.apply (accessOr path default) data = do
        let _ ← registry.apply default data
        pure part
  /-- Chains of the data context that are written alike are the same. -/
  distinct : ∀ {chain chain' : List Value.Step} {path : String} {part part' : Value}, path ≠ "" →
    WrittenAs chain path → HasPart data chain part →
    WrittenAs chain' path → HasPart data chain' part' → chain = chain'
  /-- Any other path gives the default. -/
  unreached : ∀ {path : String}, path ≠ "" →
    (∀ chain part, WrittenAs chain path → ¬HasPart data chain part) →
    registry.apply (access path) data = pure .null ∧
      ∀ default, registry.apply (accessOr path default) data = registry.apply default data
  /-- In a list nothing is found but its items, each under the digits of its position. -/
  positions : ∀ {items : List Value} {name : String}, data = .list items → name ≠ "" →
    '.' ∉ name.toList → (∀ position < items.length, (Value.Step.item position).text ≠ name) →
    registry.apply (access name) data = pure .null
  /-- Reading at two paths with a dot between them is reading at the one and then, in
  what is found there, at the other. -/
  composed : ∀ {front back : String}, front ≠ "" → back ≠ "" →
    registry.apply (access (front ++ "." ++ back)) data = do
      let part ← registry.apply (access front) data
      registry.apply (access back) part

variable {data : Value} {path : String}

theorem apply_text (registry : Registry σ) (text : String) (data : Value) :
    registry.apply (.text text) data = pure (.text text) := rfl

theorem apply_access (registry : Registry σ) (path : String) (data : Value) :
    registry.apply (access path) data = pure ((data.at? path).getD .null) := by
  have hread : data.read [.text path] = (data.at? path).getD .null := rfl
  rw [← hread]
  rfl

theorem apply_accessOr (registry : Registry σ) (path : String) (default data : Value) :
    registry.apply (accessOr path default) data =
      registry.apply default data >>= fun v => pure ((data.at? path).getD v) := by
  have hread : ∀ v, data.read [.text path, v] = (data.at? path).getD v := fun _ => rfl
  rw [accessOr, apply_operation, Value.asList]
  change Keyword.reading Value.read _ data = _
  simp only [Keyword.reading, Control.evaluateAll, List.map_cons, List.map_nil, List.mapM_cons,
    List.mapM_nil, apply_text, bind_assoc, pure_bind, hread]

theorem at?_eq_none_of_unreached (hpath : path ≠ "")
    (h : ∀ chain part, WrittenAs chain path → ¬HasPart data chain part) : data.at? path = none := by
  rw [Option.eq_none_iff_forall_not_mem]
  intro part hpart
  obtain ⟨chain, hwritten, hleads⟩ := (Value.at?_eq_some_iff hpath).mp hpart
  exact h chain part hwritten hleads

theorem child?_list_eq_none {items : List Value} {name : String}
    (h : ∀ position < items.length, (Value.Step.item position).text ≠ name) :
    (Value.list items).child? name = none := by
  rw [Option.eq_none_iff_forall_not_mem]
  intro part hpart
  obtain ⟨step, hname, hleads⟩ := Value.child?_eq_some_iff.mp hpart
  cases hleads with
  | item hitem hrest =>
      obtain ⟨hlt, -⟩ := List.getElem?_eq_some_iff.mp hitem
      exact h _ hlt hname

/-- Every data context is addressed so. -/
theorem addresses (registry : Registry σ) (data : Value) : Addresses registry data where
  reached := by
    intro chain path part hpath hwritten hleads
    have hat := (Value.at?_eq_some_iff hpath).mpr ⟨chain, hwritten, hleads⟩
    constructor
    · rw [apply_access, hat, Option.getD_some]
    · intro default
      simp only [apply_accessOr, hat, Option.getD_some]
  distinct := by
    intro chain chain' path part part' hpath hwritten hleads hwritten' hleads'
    refine hleads.chain_unique hleads' ?_
    rw [← hwritten.segments_eq hpath, ← hwritten'.segments_eq hpath]
  unreached := by
    intro path hpath hnone
    have hat := at?_eq_none_of_unreached hpath hnone
    constructor
    · rw [apply_access, hat, Option.getD_none]
    · intro default
      simp only [apply_accessOr, hat, Option.getD_none, bind_pure]
  positions := by
    rintro items name rfl hname hdot hpositions
    rw [apply_access, Value.at?_eq_child? hname hdot, child?_list_eq_none hpositions,
      Option.getD_none]
  composed := by
    intro front back hfront hback
    simp only [apply_access, pure_bind, Value.at?_append data hfront hback]
    cases data.at? front with
    | none => simp only [Option.bind_none, Option.getD_none, Value.at?_null hback]
    | some part => simp only [Option.bind_some, Option.getD_some]

/-- A position has one spelling. -/
example : (empty : Registry Unit).apply (access "tags.00")
    (.object [("tags", .list [.text "new"])]) = pure .null := by
  rfl

end DataRules.Registry
