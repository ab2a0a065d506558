set_option autoImplicit false

/-!
# Tables: entries in ascending key order

Objects, operator groups and the operator registry are tables from names to
entries.  A table is a list of pairs whose keys ascend, so a name has at most one
entry and the order in which entries came in leaves no trace.  Names are ordered
by code point.  `lookup` is the view of a table: each operation says below what
it does to it.
-/

namespace DataRules.Table

variable {α : Type}

/-- The keys ascend, so no two entries share one. -/
def Ascending (entries : List (String × α)) : Prop := entries.Pairwise fun a b => a.1 < b.1

/-- The entry under a key. -/
def lookup (key : String) : List (String × α) → Option α
  | [] => none
  | (k, a) :: rest => if k = key then some a else lookup key rest

/-- The table with one entry set, in place of any entry under the same key. -/
def insert (key : String) (a : α) : List (String × α) → List (String × α)
  | [] => [(key, a)]
  | (k, b) :: rest =>
      if key < k then (key, a) :: (k, b) :: rest
      else if k = key then (key, a) :: rest
      else (k, b) :: insert key a rest

/-- The table without the entry under a key. -/
def erase (key : String) (entries : List (String × α)) : List (String × α) :=
  entries.filter fun entry => entry.1 ≠ key

/-- The table with these entries; of two under one key the later one stays. -/
def ofList (entries : List (String × α)) : List (String × α) :=
  entries.foldl (fun table entry => insert entry.1 entry.2 table) []

/-! ## What the operations do to the entries -/

@[simp] theorem lookup_nil (key : String) : lookup key ([] : List (String × α)) = none := rfl

theorem lookup_cons (key k : String) (a : α) (rest : List (String × α)) :
    lookup key ((k, a) :: rest) = if k = key then some a else lookup key rest := rfl

theorem lookup_cons_self (key : String) (a : α) (rest : List (String × α)) :
    lookup key ((key, a) :: rest) = some a := if_pos rfl

@[simp] theorem lookup_insert_self (key : String) (a : α) (entries : List (String × α)) :
    lookup key (insert key a entries) = some a := by
  induction entries with
  | nil => simp [insert, lookup]
  | cons entry rest ih =>
      obtain ⟨k, b⟩ := entry
      simp only [insert]
      split
      · simp [lookup]
      · split
        · simp [lookup]
        · next h => simp [lookup, h, ih]

theorem lookup_insert_of_ne {key other : String} (h : key ≠ other) (a : α)
    (entries : List (String × α)) :
    lookup other (insert key a entries) = lookup other entries := by
  induction entries with
  | nil => simp [insert, lookup, h]
  | cons entry rest ih =>
      obtain ⟨k, b⟩ := entry
      simp only [insert]
      split
      · simp [lookup, h]
      · split
        · next hk => subst hk; simp [lookup, h]
        · simp [lookup, ih]

@[simp] theorem lookup_erase_self (key : String) (entries : List (String × α)) :
    lookup key (erase key entries) = none := by
  induction entries with
  | nil => rfl
  | cons entry rest ih =>
      obtain ⟨k, b⟩ := entry
      by_cases h : k = key
      · simpa [erase, h] using ih
      · have hk : erase key ((k, b) :: rest) = (k, b) :: erase key rest := by simp [erase, h]
        rw [hk, lookup_cons, if_neg h, ih]

theorem lookup_erase_of_ne {key other : String} (h : key ≠ other)
    (entries : List (String × α)) : lookup other (erase key entries) = lookup other entries := by
  induction entries with
  | nil => rfl
  | cons entry rest ih =>
      obtain ⟨k, b⟩ := entry
      by_cases hk : k = key
      · have he : erase key ((k, b) :: rest) = erase key rest := by simp [erase, hk]
        rw [he, ih, lookup_cons, if_neg (by rw [hk]; exact h)]
      · have he : erase key ((k, b) :: rest) = (k, b) :: erase key rest := by simp [erase, hk]
        rw [he, lookup_cons, lookup_cons, ih]

theorem lookup_append (key : String) (front back : List (String × α)) :
    lookup key (front ++ back) = (lookup key front).or (lookup key back) := by
  induction front with
  | nil => rfl
  | cons entry front ih =>
      obtain ⟨k, a⟩ := entry
      rw [List.cons_append, lookup_cons, lookup_cons]
      split
      · rfl
      · exact ih

/-- The last of the entries under a key is the one that stays. -/
theorem lookup_ofList (key : String) (entries : List (String × α)) :
    lookup key (ofList entries) = lookup key entries.reverse := by
  have hfold : ∀ table : List (String × α),
      lookup key (entries.foldl (fun t entry => insert entry.1 entry.2 t) table) =
        (lookup key entries.reverse).or (lookup key table) := by
    induction entries with
    | nil => exact fun _ => rfl
    | cons entry entries ih =>
        intro table
        obtain ⟨k, a⟩ := entry
        rw [List.foldl_cons, ih, List.reverse_cons, lookup_append, Option.or_assoc, lookup_cons]
        by_cases h : k = key
        · rw [if_pos h, Option.some_or, h, lookup_insert_self]
        · rw [if_neg h, lookup_nil, Option.none_or, lookup_insert_of_ne h]
  have hall := hfold []
  rwa [lookup_nil, Option.or_none] at hall

theorem lookup_eq_none_iff {key : String} {entries : List (String × α)} :
    lookup key entries = none ↔ key ∉ entries.map Prod.fst := by
  induction entries with
  | nil => simp
  | cons entry rest ih =>
      obtain ⟨k, a⟩ := entry
      rw [lookup_cons, List.map_cons, List.mem_cons, not_or, ← ih]
      split
      · next h => simp [h]
      · next h => simp [Ne.symm h]

/-- Nothing is erased where there is no entry. -/
theorem erase_of_lookup_eq_none {key : String} {entries : List (String × α)}
    (h : lookup key entries = none) : erase key entries = entries := by
  rw [lookup_eq_none_iff] at h
  refine List.filter_eq_self.mpr ?_
  intro entry hentry
  have hne : entry.1 ≠ key := by
    rintro rfl
    exact h (List.mem_map_of_mem hentry)
  simpa using hne

/-- Erasing takes back the entry that was set under a new key. -/
theorem erase_insert {key : String} {entries : List (String × α)} (h : lookup key entries = none)
    (a : α) : erase key (insert key a entries) = entries := by
  induction entries with
  | nil => simp [insert, erase]
  | cons entry rest ih =>
      obtain ⟨k, b⟩ := entry
      have hall := erase_of_lookup_eq_none h
      rw [lookup_cons] at h
      split at h
      · cases h
      · next hk =>
          rw [insert, if_neg hk]
          split
          · have hfirst : erase key ((key, a) :: (k, b) :: rest) = erase key ((k, b) :: rest) := by
              simp [erase]
            rw [hfirst, hall]
          · have hfirst : erase key ((k, b) :: insert key a rest) =
                (k, b) :: erase key (insert key a rest) := by
              simp [erase, hk]
            rw [hfirst, ih h]

theorem mem_of_lookup_eq_some {key : String} {a : α} {entries : List (String × α)}
    (h : lookup key entries = some a) : (key, a) ∈ entries := by
  induction entries with
  | nil => cases h
  | cons entry rest ih =>
      obtain ⟨k, b⟩ := entry
      rw [lookup_cons] at h
      split at h
      · next hk =>
          obtain rfl := Option.some.inj h
          rw [hk]
          exact List.mem_cons_self
      · exact List.mem_cons_of_mem _ (ih h)

/-! ## The order of the keys -/

theorem mem_insert {key : String} {a : α} {entries : List (String × α)} {entry : String × α}
    (h : entry ∈ insert key a entries) : entry = (key, a) ∨ entry ∈ entries := by
  induction entries with
  | nil => simpa [insert] using h
  | cons first rest ih =>
      obtain ⟨k, b⟩ := first
      simp only [insert] at h
      split at h
      · simpa using h
      · split at h
        · rcases List.mem_cons.mp h with h | h
          · exact .inl h
          · exact .inr (List.mem_cons_of_mem _ h)
        · rcases List.mem_cons.mp h with h | h
          · exact .inr (h ▸ List.mem_cons_self)
          · exact (ih h).imp_right (List.mem_cons_of_mem _)

theorem Ascending.insert {entries : List (String × α)} (h : Ascending entries) (key : String)
    (a : α) : Ascending (insert key a entries) := by
  induction entries with
  | nil => simp [Table.insert, Ascending]
  | cons first rest ih =>
      obtain ⟨k, b⟩ := first
      obtain ⟨hfirst, hrest⟩ := List.pairwise_cons.mp h
      simp only [Table.insert]
      split
      · next hlt =>
          refine List.pairwise_cons.mpr ⟨fun entry he => ?_, h⟩
          rcases List.mem_cons.mp he with rfl | he
          · exact hlt
          · exact String.lt_trans hlt (hfirst entry he)
      · split
        · next heq => subst heq; exact List.pairwise_cons.mpr ⟨hfirst, hrest⟩
        · next hnlt hne =>
            refine List.pairwise_cons.mpr ⟨fun entry he => ?_, ih hrest⟩
            rcases mem_insert he with rfl | he
            · exact Std.lt_of_le_of_ne (String.not_lt.mp hnlt) hne
            · exact hfirst entry he

theorem Ascending.erase {entries : List (String × α)} (h : Ascending entries) (key : String) :
    Ascending (erase key entries) := List.Pairwise.filter _ h

theorem ascending_ofList (entries : List (String × α)) : Ascending (ofList entries) := by
  have hfold : ∀ (more table : List (String × α)), Ascending table →
      Ascending (more.foldl (fun t entry => insert entry.1 entry.2 t) table) := by
    intro more
    induction more with
    | nil => exact fun _ h => h
    | cons entry more ih => exact fun table h => ih _ (h.insert entry.1 entry.2)
  exact hfold entries [] List.Pairwise.nil

end DataRules.Table
