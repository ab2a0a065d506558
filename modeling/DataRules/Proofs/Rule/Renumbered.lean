import DataRules.Proofs.Rule.Generalisation
import DataRules.Proofs.Value.Renumbered
import DataRules.Rule.Paths

set_option autoImplicit false

/-!
# Renumbered rules: the same operators, paths and patterns

A rule in which integers are written as doubles, or such doubles as integers, has
the same operators on renumbered arguments.  It reads the same data paths, a path
that is a number being spelled with its digits either way, and it fits a renumbered
pattern exactly when the rule fits the pattern.
-/

namespace DataRules

/-! ## Rules laid open -/

namespace Rule

mutual

/-- The second rule is the first one with literals renumbered. -/
inductive Renumbered : Rule → Rule → Prop where
  | literal {v v' : Value} (hvalue : v.Renumbered v') : Renumbered (.literal v) (.literal v')
  | list {items items' : List Rule} (hitems : RenumberedEach items items') :
      Renumbered (.list items) (.list items')
  | operation {operator : String} {args args' : List Rule} (hargs : RenumberedEach args args') :
      Renumbered (.operation operator args) (.operation operator args')

/-- The same for as many rules in the one list as in the other. -/
inductive RenumberedEach : List Rule → List Rule → Prop where
  | nil : RenumberedEach [] []
  | cons {rule rule' : Rule} {rules rules' : List Rule} (hrule : Renumbered rule rule')
      (hrules : RenumberedEach rules rules') : RenumberedEach (rule :: rules) (rule' :: rules')

end

theorem sizeOf_asList_le (v : Value) : sizeOf v.asList ≤ sizeOf v + 2 := by
  cases v <;> simp [Value.asList] <;> omega

mutual

/-- A renumbered value is a renumbered rule. -/
theorem renumbered_ofValue : {v v' : Value} → v.Renumbered v' →
    Renumbered (ofValue v) (ofValue v')
  | _, _, .null => .literal .null
  | _, _, .bool b => .literal (.bool b)
  | _, _, .number hnumber => .literal (.number hnumber)
  | _, _, .text s => .literal (.text s)
  | _, _, .list hitems => by
      rw [ofValue, ofValue, ofValues_eq_map, ofValues_eq_map]
      exact .list (renumberedEach_map hitems)
  | _, _, .object .nil => .literal (.object .nil)
  | _, _, .object (.cons (v := operand) hoperand .nil) => by
      have hsize := sizeOf_asList_le operand
      rw [ofValue_operation, ofValue_operation]
      exact .operation (renumberedEach_map hoperand.asList)
  | _, _, .object (.cons hfirst (.cons hnext hrest)) => by
      rw [ofValue_eq_shape, ofValue_eq_shape]
      exact .literal (.object (.cons hfirst (.cons hnext hrest)))
termination_by v => sizeOf v

theorem renumberedEach_map : {vs vs' : List Value} → Value.RenumberedEach vs vs' →
    RenumberedEach (vs.map ofValue) (vs'.map ofValue)
  | _, _, .nil => .nil
  | _, _, .cons hvalue hvalues => .cons (renumbered_ofValue hvalue) (renumberedEach_map hvalues)
termination_by vs => sizeOf vs

end

/-! ## Paths -/

theorem Renumbered.writtenPath?_eq {args args' : List Rule} (h : RenumberedEach args args') :
    writtenPath? args = writtenPath? args' := by
  cases h with
  | nil => rfl
  | cons hfirst _ =>
      cases hfirst with
      | literal hvalue =>
          cases hvalue with
          | number hnumber => exact congrArg some hnumber.text_eq
          | _ => rfl
      | _ => rfl

mutual

/-- Renumbered rules add the same paths. -/
theorem Renumbered.addPaths_eq : {rule rule' : Rule} → Renumbered rule rule' →
    (seen : List String) → rule.addPaths seen = rule'.addPaths seen
  | _, _, .literal _, _ => rfl
  | _, _, .list _, _ => rfl
  | _, _, .operation hargs, seen => by
      rw [addPaths, addPaths, Renumbered.writtenPath?_eq hargs, hargs.addAllPaths_eq seen]

theorem RenumberedEach.addAllPaths_eq : {rules rules' : List Rule} → RenumberedEach rules rules' →
    (seen : List String) → addAllPaths rules seen = addAllPaths rules' seen
  | _, _, .nil, _ => rfl
  | _, _, .cons hrule hrules, seen => by
      rw [addAllPaths, addAllPaths, hrule.addPaths_eq seen, hrules.addAllPaths_eq]

end

/-- Renumbered rules read the same data paths. -/
theorem Renumbered.paths_eq {rule rule' : Rule} (h : Renumbered rule rule') :
    rule.paths = rule'.paths :=
  h.addPaths_eq []

end Rule

/-! ## Patterns -/

namespace Pattern

theorem admits_eq (placeholder : String) {rule rule' : Value} (h : rule.Renumbered rule') :
    admits placeholder rule = admits placeholder rule' := by
  cases h <;> rfl

mutual

/-- Renumbered rules fit renumbered patterns exactly when the rules fit the patterns. -/
theorem fits_eq : {pattern pattern' rule rule' : Value} → pattern.Renumbered pattern' →
    rule.Renumbered rule' → fits pattern rule = fits pattern' rule'
  | _, _, _, _, .null, hrule => Value.Renumbered.null.equals_eq hrule
  | _, _, _, _, .bool b, hrule => (Value.Renumbered.bool b).equals_eq hrule
  | _, _, _, _, .number hnumber, hrule => (Value.Renumbered.number hnumber).equals_eq hrule
  | _, _, _, _, .text s, hrule => by
      rw [fits, fits, (Value.Renumbered.text s).equals_eq hrule, admits_eq s hrule]
  | _, _, _, _, .list hpatterns, hrule => by
      rw [Bool.eq_iff_iff, fits_list_iff, fits_list_iff]
      cases hrule with
      | list hrules => simp [fitEach_eq hpatterns hrules]
      | _ => simp
  | _, _, _, _, .object .nil, hrule => (Value.Renumbered.object .nil).equals_eq hrule
  | _, _, _, _, .object (.cons hoperand .nil), hrule => by
      rw [Bool.eq_iff_iff, fits_operation_iff, fits_operation_iff]
      cases hrule with
      | object hfields =>
          cases hfields with
          | nil => simp
          | cons hfirst hrest =>
              cases hrest with
              | nil => simp [fits_eq hoperand hfirst]
              | cons => simp
      | _ => simp
  | _, _, _, _, .object (.cons hfirst (.cons hnext hrest)), hrule =>
      (Value.Renumbered.object (.cons hfirst (.cons hnext hrest))).equals_eq hrule

theorem fitEach_eq : {patterns patterns' rules rules' : List Value} →
    Value.RenumberedEach patterns patterns' → Value.RenumberedEach rules rules' →
    fitEach patterns rules = fitEach patterns' rules'
  | _, _, _, _, .nil, .nil => rfl
  | _, _, _, _, .nil, .cons _ _ => rfl
  | _, _, _, _, .cons _ _, .nil => rfl
  | _, _, _, _, .cons hpattern hpatterns, .cons hrule hrules => by
      rw [fitEach, fitEach, fits_eq hpattern hrule, fitEach_eq hpatterns hrules]

end

end Pattern

end DataRules
