import DataRules.Eval.Engine

set_option autoImplicit false

/-!
# Checked: stretches, positions and counts

The operations that take a stretch of a list, read at a position or subtract
counts are written here a second time on partial primitives: a stretch must not
run backwards or past the end, a position must be taken, and what is subtracted
must not exceed what is there.  Each of them turns out to be defined everywhere
and to give what the total definition gives, so the primitives are never used out
of range.
-/

namespace DataRules.Checked

variable {α : Type}

/-- The items from position `first` up to position `past`, which must be in order
and within the list. -/
def stretch? (items : List α) (first past : Nat) : Option (List α) :=
  if first ≤ past ∧ past ≤ items.length then some ((items.take past).drop first) else none

/-- The difference of two counts, the second of which must not exceed the first. -/
def difference? (m n : Nat) : Option Nat := if n ≤ m then some (m - n) else none

theorem stretch?_of_le {items : List α} {first past : Nat} (hfirst : first ≤ past)
    (hpast : past ≤ items.length) :
    stretch? items first past = some ((items.take past).drop first) :=
  if_pos ⟨hfirst, hpast⟩

theorem difference?_of_le {m n : Nat} (h : n ≤ m) : difference? m n = some (m - n) := if_pos h

/-! ## Parts of a text -/

/-- The characters from a position on, which counts from the end when it is below
zero, and no more of them than `length?` says.  Both are brought into the text
first. -/
def clip? (cs : List Char) (start : Int) (length? : Option Int) : Option (List Char) :=
  let size : Int := cs.length
  let first := if start < 0 then max (size + start) 0 else min start size
  let length := max (min (length?.getD size) size) 0
  let past := min (first + length) size
  if past ≤ first then some [] else stretch? cs first.toNat past.toNat

/-- The same, where a length below zero is the count of characters left out at the
end of the rest. -/
def slice? (cs : List Char) (start : Int) (length? : Option Int) : Option (List Char) :=
  match length? with
  | none => clip? cs start none
  | some length =>
      if length < 0 then do
        let rest ← clip? cs start none
        stretch? rest 0 (max (rest.length + length) 0).toNat
      else clip? cs start (some length)

/-- The part of a text that `substr` gives. -/
def substring? (args : List Value) : Option Value :=
  let cs := (Builtin.arg args 0).toText.toList
  let whole := fun v : Value => Double.truncateWithin cs.length v.toNumber
  (slice? cs (whole (Builtin.arg args 1)) (args[2]?.map whole)).map fun part =>
    .text (String.ofList part)

/-- Stretches over the same positions of a list are the same: there are none in
either, or both run between the same two. -/
theorem drop_take_eq_of_positions {items : List α} {first past first' past' : Nat}
    (h : min past items.length ≤ first ∧ min past' items.length ≤ first' ∨
      first = first' ∧ min past items.length = min past' items.length) :
    (items.take past).drop first = (items.take past').drop first' := by
  rcases h with ⟨hempty, hempty'⟩ | ⟨hfirst, hpast⟩
  · have hlength := List.length_take (i := past) (l := items)
    have hlength' := List.length_take (i := past') (l := items)
    rw [List.drop_eq_nil_of_le (hlength ▸ hempty), List.drop_eq_nil_of_le (hlength' ▸ hempty')]
  · rw [hfirst, List.take_eq_take_min (i := past), List.take_eq_take_min (i := past'), hpast]

/-- Clipping never leaves the text, and gives the stretch between the clipped
positions. -/
theorem clip?_eq (cs : List Char) (start : Int) (length? : Option Int) :
    clip? cs start length? = some ((cs.take
        (min ((if start < 0 then max (cs.length + start) 0 else min start cs.length) +
          max (min (length?.getD cs.length) cs.length) 0) cs.length).toNat).drop
      (if start < 0 then max (cs.length + start) 0 else min start cs.length).toNat) := by
  unfold clip?
  generalize hfirst :
    (if start < 0 then max ((cs.length : Int) + start) 0 else min start cs.length) = first
  generalize hpast :
    min (first + max (min (length?.getD cs.length) cs.length) 0) (cs.length : Int) = past
  simp only [hfirst, hpast]
  split
  · rw [List.drop_eq_nil_of_le]
    rw [List.length_take]
    omega
  · refine stretch?_of_le ?_ ?_ <;> omega

/-- Without a length, clipping gives everything from the clipped position on. -/
theorem clip?_none (cs : List Char) (start : Int) :
    clip? cs start none = some (cs.drop
      (if start < 0 then max (cs.length + start) 0 else min start cs.length).toNat) := by
  rw [clip?_eq, List.take_of_length_le]
  rw [Option.getD_none]
  split <;> omega

/-- A position that is not too far below zero needs clipping at the end only. -/
theorem clipped_start_eq {size start : Int} (h : -size ≤ start) :
    (if start < 0 then max (size + start) 0 else min start size) =
      min (if start < 0 then size + start else start) size := by
  split <;> omega

/-- Bringing the start into the text first gives the same part, as long as it is
not further below zero than the text is long. -/
theorem slice?_eq {cs : List Char} {start : Int} (h : -(cs.length : Int) ≤ start)
    (length? : Option Int) : slice? cs start length? = some (Builtin.slice cs start length?) := by
  have hclipped := clipped_start_eq h
  have hfirst : 0 ≤ if start < 0 then cs.length + start else start := by split <;> omega
  unfold slice? Builtin.slice
  cases length? with
  | none =>
      simp only [clip?_none, hclipped]
      generalize (if start < 0 then (cs.length : Int) + start else start) = first at hfirst ⊢
      rw [Int.toNat_natCast, List.take_length, Option.some.injEq, List.drop_eq_drop_iff]
      omega
  | some length =>
      by_cases hlength : length < 0
      · simp only [hlength, if_true, clip?_none, hclipped, Option.bind_eq_bind, Option.bind_some]
        generalize (if start < 0 then (cs.length : Int) + start else start) = first at hfirst ⊢
        rw [stretch?_of_le (Nat.zero_le _)]
        · rw [List.drop_zero, List.take_drop, List.length_drop, Option.some.injEq]
          refine drop_take_eq_of_positions ?_
          omega
        · omega
      · simp only [hlength, if_false, clip?_eq, hclipped, Option.getD_some, Option.some.injEq]
        generalize (if start < 0 then (cs.length : Int) + start else start) = first at hfirst ⊢
        refine drop_take_eq_of_positions ?_
        omega

theorem substring?_eq (args : List Value) :
    substring? args = some (Builtin.substring args) := by
  unfold substring? Builtin.substring
  simp only [slice?_eq (Double.neg_bound_le_truncateWithin _ _), Option.map_some]

/-! ## The count of keys that are present -/

/-- What `missing_some` gives, the keys present being counted by a subtraction. -/
def missingSome? (data : Value) (args : List Value) : Option Value :=
  let keys := Value.optionalKeys args
  let absent := data.missingKeys keys
  (difference? keys.length absent.length).map fun present =>
    if (args.headD .null).toNumber ≤ Float.ofNat present then .list [] else .list absent

theorem missingSome?_eq (data : Value) (args : List Value) :
    missingSome? data args = some (data.missingSome args) := by
  have hle := Value.length_missingKeys_le data (Value.optionalKeys args)
  unfold missingSome? Value.missingSome
  simp only [difference?_of_le hle, Option.map_some]

/-! ## Conditions and consequents by position -/

section Pairs

variable {σ : Type}

/-- The condition and the consequent at positions `2 i` and `2 i + 1`. -/
def pair? (args : List α) (i : Nat) : Option (α × α) := do
  let condition ← args[2 * i]?
  let consequent ← args[2 * i + 1]?
  return (condition, consequent)

/-- All pairs, as many as half the arguments. -/
def pairs? (args : List α) : Option (List (α × α)) :=
  (List.range (args.length / 2)).mapM (pair? args)

/-- The consequent of the first condition that is true, or what is left over. -/
def chooseAmong : List (Meaning σ × Meaning σ) → Meaning σ → Meaning σ
  | [], otherwise, data => otherwise data
  | (condition, consequent) :: pairs, otherwise, data => do
      if (← condition data).isTruthy then consequent data
      else chooseAmong pairs otherwise data

theorem pairs?_of_length_lt {args : List α} (h : args.length < 2) : pairs? args = some [] := by
  rw [pairs?, Nat.div_eq_of_lt h]
  rfl

theorem pairs?_cons_cons (condition consequent : α) (rest : List α) :
    pairs? (condition :: consequent :: rest) =
      (pairs? rest).map ((condition, consequent) :: ·) := by
  have hlength : (condition :: consequent :: rest).length / 2 = rest.length / 2 + 1 := by
    simp only [List.length_cons]
    omega
  have hnext : ∀ i, pair? (condition :: consequent :: rest) (i + 1) = pair? rest i := by
    intro i
    simp only [pair?, Nat.mul_add, List.getElem?_cons_succ]
  unfold pairs?
  rw [hlength, List.range_succ_eq_map, List.mapM_cons, List.mapM_map]
  simp only [Function.comp_def, Nat.succ_eq_add_one, hnext]
  cases (List.range (rest.length / 2)).mapM (pair? rest) <;> rfl

theorem argument_cons_cons (condition consequent : Meaning σ) (rest : List (Meaning σ)) :
    Control.argument (condition :: consequent :: rest)
        (2 * ((condition :: consequent :: rest).length / 2)) =
      Control.argument rest (2 * (rest.length / 2)) := by
  have hposition : 2 * ((condition :: consequent :: rest).length / 2) =
      2 * (rest.length / 2) + 1 + 1 := by
    simp only [List.length_cons]
    omega
  rw [hposition]
  rfl

/-- The pairs are all there, and choosing is choosing among them, the argument
after the last pair being what is left over. -/
theorem exists_pairs : (args : List (Meaning σ)) →
    ∃ pairs, pairs? args = some pairs ∧ Control.choose args =
      chooseAmong pairs (Control.argument args (2 * (args.length / 2)))
  | [] => by
      refine ⟨[], pairs?_of_length_lt Nat.two_pos, ?_⟩
      funext data
      rw [Control.choose, chooseAmong]
      rfl
  | [otherwise] => by
      refine ⟨[], pairs?_of_length_lt Nat.one_lt_two, ?_⟩
      have hposition : [otherwise].length / 2 = 0 := Nat.div_eq_of_lt Nat.one_lt_two
      funext data
      rw [Control.choose, chooseAmong, hposition]
      rfl
  | condition :: consequent :: rest => by
      obtain ⟨pairs, hpairs, hchoose⟩ := exists_pairs rest
      refine ⟨(condition, consequent) :: pairs, ?_, ?_⟩
      · rw [pairs?_cons_cons, hpairs, Option.map_some]
      · funext data
        rw [argument_cons_cons, Control.choose, chooseAmong, hchoose]

end Pairs

/-! ## Look-ups -/

/-- What a segment names in a list is the item at a position of the list. -/
theorem exists_position_of_child? {items : List Value} {segment : String} {v : Value}
    (h : (Value.list items).child? segment = some v) :
    ∃ i, Path.index? segment = some i ∧ ∃ hi : i < items.length, items[i] = v := by
  rw [Value.child?] at h
  obtain ⟨i, hindex, hitem⟩ := Option.bind_eq_some_iff.mp h
  obtain ⟨hi, hv⟩ := List.getElem?_eq_some_iff.mp hitem
  exact ⟨i, hindex, hi, hv⟩

/-- A chain of names that leads nowhere fails at one of the names. -/
theorem position_of_resolve_error {σ : Type} {names : List String} {n : Nat} :
    ∀ {entries : List (String × Operation σ)}, names ≠ [] →
      Registry.resolve entries names = .error n → 0 < n ∧ n ≤ names.length := by
  induction names generalizing n with
  | nil => exact fun hnames _ => absurd rfl hnames
  | cons first rest ih =>
      intro entries _ h
      cases rest with
      | nil =>
          rw [Registry.resolve] at h
          split at h
          · cases h
          · cases h
            exact ⟨Nat.one_pos, Nat.le_refl 1⟩
      | cons next rest =>
          rw [Registry.resolve] at h
          split at h
          · split at h
            · cases h
            · next m hrest =>
                obtain rfl := Except.error.inj h
                have hm := ih (List.cons_ne_nil next rest) hrest
                rw [List.length_cons]
                omega
          · cases h
            exact ⟨Nat.one_pos, Nat.succ_le_succ (Nat.zero_le _)⟩

/-! ## All of them -/

/-- Wherever the evaluator and the built-in operations take a stretch, a
difference or a position, it is there. -/
structure InRange (σ : Type) : Prop where
  substring : ∀ args, substring? args = some (Builtin.substring args)
  missingSome : ∀ data args, missingSome? data args = some (Value.missingSome data args)
  pairs : ∀ args : List (Meaning σ), ∃ pairs, pairs? args = some pairs ∧
    Control.choose args = chooseAmong pairs (Control.argument args (2 * (args.length / 2)))
  item : ∀ (items : List Value) (segment : String) (v : Value),
    (Value.list items).child? segment = some v →
    ∃ i, Path.index? segment = some i ∧ ∃ hi : i < items.length, items[i] = v
  segment : ∀ (registry : Registry σ) (name : String) (n : Nat),
    Registry.resolve registry.entries (Path.segments name) = .error n →
    0 < n ∧ n ≤ (Path.segments name).length

theorem inRange (σ : Type) : InRange σ where
  substring := substring?_eq
  missingSome := missingSome?_eq
  pairs := exists_pairs
  item := fun _ _ _ => exists_position_of_child?
  segment := fun _ name _ => position_of_resolve_error (Path.segments_ne_nil name)

end DataRules.Checked
