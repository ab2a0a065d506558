import DataRules.Proofs.Text.Segments
import DataRules.Value.Path

set_option autoImplicit false

/-!
# Chains: the parts of a value and their paths

A value is a tree whose inner nodes are objects and lists.  A chain of steps, each the key
of an object or a position in a list, leads from the value to a part of it.  Written with
dots between its steps a chain is a path, as long as no key has a dot in it, and reading
the value at a path that is not empty is following the chain that is written so.  At most
one such chain leads anywhere: an object has keys alone and a list positions alone, and a
position is written in one way only.
-/

namespace DataRules.Value

/-- A step from a container into one of its parts. -/
inductive Step where
  | key (name : String)
  | item (position : Nat)
  deriving DecidableEq, Repr

/-- A step as it is written: a key as it stands, a position in decimal digits without a
needless zero. -/
def Step.text : Step → String
  | .key name => name
  | .item position => String.ofList (Nat.toDigits 10 position)

/-- The chain of steps leads from the first value to the second. -/
inductive HasPart : Value → List Step → Value → Prop where
  | here (v : Value) : HasPart v [] v
  | key {fields : List (String × Value)} {name : String} {part v : Value} {chain : List Step}
      (hpart : Table.lookup name fields = some part) (hrest : HasPart part chain v) :
      HasPart (.object fields) (.key name :: chain) v
  | item {items : List Value} {position : Nat} {part v : Value} {chain : List Step}
      (hpart : items[position]? = some part) (hrest : HasPart part chain v) :
      HasPart (.list items) (.item position :: chain) v

/-- The path is the chain with dots between its steps, and none of the keys has a dot in
it. -/
structure WrittenAs (chain : List Step) (path : String) : Prop where
  plain : ∀ name, Step.key name ∈ chain → '.' ∉ name.toList
  joined : Path.join (chain.map Step.text) = path

variable {v w : Value} {chain chain' : List Step} {path : String}

/-! ## Steps and segments -/

theorem index?_eq_some_iff_text {segment : String} {position : Nat} :
    Path.index? segment = some position ↔ (Step.item position).text = segment := by
  rw [Path.index?_eq_some_iff, Step.text, ← String.toList_inj, String.toList_ofList]
  exact eq_comm

/-- Positions are written differently. -/
theorem position_eq_of_text {m n : Nat} (h : (Step.item m).text = (Step.item n).text) : m = n := by
  have hm := index?_eq_some_iff_text.mpr h
  rw [index?_eq_some_iff_text.mpr rfl] at hm
  exact (Option.some.inj hm).symm

theorem dot_not_mem_item_text (position : Nat) : '.' ∉ (Step.item position).text.toList := by
  intro hmem
  rw [Step.text, String.toList_ofList] at hmem
  have hdigit := Nat.isDigit_of_mem_toDigits (by decide) (by decide) hmem
  exact absurd hdigit (by decide)

/-- A segment names a part exactly when one step written so leads there. -/
theorem child?_eq_some_iff {segment : String} :
    v.child? segment = some w ↔ ∃ step, step.text = segment ∧ HasPart v [step] w := by
  constructor
  · intro h
    cases v with
    | object fields => exact ⟨.key segment, rfl, .key h (.here w)⟩
    | list items =>
        obtain ⟨position, hindex, hitem⟩ := Option.bind_eq_some_iff.mp h
        exact ⟨.item position, index?_eq_some_iff_text.mp hindex, .item hitem (.here w)⟩
    | _ => cases h
  · rintro ⟨step, rfl, hleads⟩
    cases hleads with
    | key hpart hrest =>
        cases hrest
        exact hpart
    | item hpart hrest =>
        cases hrest
        rw [child?, index?_eq_some_iff_text.mpr rfl]
        exact hpart

theorem hasPart_cons_iff {step : Step} :
    HasPart v (step :: chain) w ↔ ∃ part, HasPart v [step] part ∧ HasPart part chain w := by
  constructor
  · intro h
    cases h with
    | key hpart hrest => exact ⟨_, .key hpart (.here _), hrest⟩
    | item hpart hrest => exact ⟨_, .item hpart (.here _), hrest⟩
  · rintro ⟨part, hstep, hrest⟩
    cases hstep with
    | key hpart hnil =>
        cases hnil
        exact .key hpart hrest
    | item hpart hnil =>
        cases hnil
        exact .item hpart hrest

/-- Following segments is following the chain that is written with them. -/
theorem follow?_eq_some_iff {segments : List String} :
    v.follow? segments = some w ↔ ∃ chain, chain.map Step.text = segments ∧ HasPart v chain w := by
  induction segments generalizing v with
  | nil =>
      rw [follow?]
      constructor
      · intro h
        obtain rfl := Option.some.inj h
        exact ⟨[], rfl, .here v⟩
      · rintro ⟨chain, hnil, hleads⟩
        obtain rfl := List.map_eq_nil_iff.mp hnil
        cases hleads
        rfl
  | cons segment segments ih =>
      rw [follow?, Option.bind_eq_some_iff]
      constructor
      · rintro ⟨part, hchild, hfollow⟩
        obtain ⟨step, rfl, hstep⟩ := child?_eq_some_iff.mp hchild
        obtain ⟨chain, rfl, hrest⟩ := ih.mp hfollow
        exact ⟨step :: chain, rfl, hasPart_cons_iff.mpr ⟨part, hstep, hrest⟩⟩
      · rintro ⟨chain, hchain, hleads⟩
        obtain ⟨step, rest, rfl, hstep, hrest⟩ := List.map_eq_cons_iff.mp hchain
        obtain ⟨part, hfirst, hlast⟩ := hasPart_cons_iff.mp hleads
        exact ⟨part, child?_eq_some_iff.mpr ⟨step, hstep, hfirst⟩, ih.mpr ⟨rest, hrest, hlast⟩⟩

/-- Of the chains that are written alike, one at most leads anywhere from a value. -/
theorem HasPart.chain_unique {w' : Value} (h : HasPart v chain w) (h' : HasPart v chain' w')
    (htext : chain.map Step.text = chain'.map Step.text) : chain = chain' := by
  induction h generalizing chain' with
  | here v => exact (List.map_eq_nil_iff.mp htext.symm).symm
  | @key _ name _ _ _ hpart hrest ih =>
      cases h' with
      | here => cases htext
      | @key _ name' _ _ _ hpart' hrest' =>
          obtain ⟨hname, htail⟩ := List.cons.inj htext
          obtain rfl : name = name' := hname
          rw [hpart] at hpart'
          obtain rfl := Option.some.inj hpart'
          rw [ih hrest' htail]
  | item hpart hrest ih =>
      cases h' with
      | here => cases htext
      | item hpart' hrest' =>
          obtain ⟨hposition, htail⟩ := List.cons.inj htext
          obtain rfl := position_eq_of_text hposition
          rw [hpart] at hpart'
          obtain rfl := Option.some.inj hpart'
          rw [ih hrest' htail]

/-! ## Paths -/

/-- The segments of a path are the steps of the chain that is written so. -/
theorem WrittenAs.segments_eq (h : WrittenAs chain path) (hpath : path ≠ "") :
    Path.segments path = chain.map Step.text := by
  obtain ⟨hplain, rfl⟩ := h
  refine Path.segments_join ?_ ?_
  · rintro hnil
    rw [hnil] at hpath
    exact hpath rfl
  · intro text hmem
    obtain ⟨step, hstep, rfl⟩ := List.mem_map.mp hmem
    cases step with
    | key name => exact hplain name hstep
    | item position => exact dot_not_mem_item_text position

theorem writtenAs_of_segments (h : chain.map Step.text = Path.segments path) :
    WrittenAs chain path := by
  constructor
  · intro name hmem
    have hsegment : name ∈ Path.segments path := by
      rw [← h]
      exact List.mem_map.mpr ⟨.key name, hmem, rfl⟩
    exact Path.dot_not_mem_of_mem_segments hsegment
  · rw [h, Path.join_segments]

/-- Reading a value at a path is following the chain that is written so. -/
theorem at?_eq_some_iff (hpath : path ≠ "") :
    v.at? path = some w ↔ ∃ chain, WrittenAs chain path ∧ HasPart v chain w := by
  rw [at?, if_neg hpath, follow?_eq_some_iff]
  constructor
  · rintro ⟨chain, htext, hleads⟩
    exact ⟨chain, writtenAs_of_segments htext, hleads⟩
  · rintro ⟨chain, hwritten, hleads⟩
    exact ⟨chain, (hwritten.segments_eq hpath).symm, hleads⟩

/-- A name without a dot leads to a part of the value itself. -/
theorem at?_eq_child? (hpath : path ≠ "") (hdot : '.' ∉ path.toList) :
    v.at? path = v.child? path := by
  rw [at?, if_neg hpath, Path.segments_of_not_mem hdot, follow?]
  exact Option.bind_fun_some _

/-- Reading at a path with a dot between two parts is reading at the one and then, in what
is found there, at the other. -/
theorem at?_append (v : Value) {front back : String} (hfront : front ≠ "") (hback : back ≠ "") :
    v.at? (front ++ "." ++ back) = (v.at? front).bind fun part => part.at? back := by
  have hpath : front ++ "." ++ back ≠ "" := by simp
  simp only [at?, if_neg hpath, if_neg hfront, if_neg hback]
  rw [Path.segments_append, follow?_append]

/-- There is nothing in null. -/
theorem at?_null (hpath : path ≠ "") : Value.null.at? path = none := by
  rw [at?, if_neg hpath]
  obtain ⟨segment, segments, hsegments⟩ := List.exists_cons_of_ne_nil (Path.segments_ne_nil path)
  rw [hsegments]
  rfl

end DataRules.Value
