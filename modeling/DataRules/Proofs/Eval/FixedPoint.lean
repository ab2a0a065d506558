import DataRules.Command.Document
import DataRules.Proofs.Eval.Branches
import DataRules.Proofs.Json.Conversion
import DataRules.Proofs.Json.RoundTrip
import DataRules.Proofs.Json.Scaling

set_option autoImplicit false

/-!
# FixedPoint: evaluated data evaluates to itself

A value is its own result when no list in it, however deep in lists, has an operation among
its items and it is none itself.  What stands in objects does not matter, since an object is
either an operation or a literal as a whole.  So a result that is such a value is not changed
by another evaluation, on whatever data, and the command that is given the value's text gives
the value back, as far as a document can hold it.  The command only needs a reader that takes
the document from the text, so what is said of it holds over every reader, and over every
writer that the reader inverts.
-/

namespace DataRules

open Control DataRules.Double

namespace Value

/-- The second value is the first one, or an item of one of the lists in it; lists are looked
into at any depth, and objects are not. -/
inductive Lists : Value → Value → Prop where
  | self (v : Value) : Lists v v
  | item {items : List Value} {v w : Value} (hmem : v ∈ items) (hlists : Lists v w) :
      Lists (.list items) w

/-- The value is no object with exactly one field, and there is none in its lists. -/
def IsInert (v : Value) : Prop := ∀ key field, ¬v.Lists (.object [(key, field)])

theorem IsInert.item {items : List Value} {v : Value} (h : (Value.list items).IsInert)
    (hmem : v ∈ items) : v.IsInert :=
  fun key field hlists => h key field (.item hmem hlists)

end Value

namespace Registry

variable {σ : Type}

mutual

/-- Without operations a value evaluates to itself. -/
theorem apply_of_isInert (registry : Registry σ) (data : Value) :
    (v : Value) → v.IsInert → registry.apply v data = pure v
  | .null, _ => rfl
  | .bool _, _ => rfl
  | .number _, _ => rfl
  | .text _, _ => rfl
  | .list items, h => by
      rw [apply_list, evaluateAll_of_isInert registry data items fun _ hmem => h.item hmem,
        pure_bind]
  | .object [], _ => rfl
  | .object [(key, field)], h => absurd (.self _) (h key field)
  | .object (_ :: _ :: _), _ => by
      rw [apply, Rule.ofValue_eq_shape]
      rfl

theorem evaluateAll_of_isInert (registry : Registry σ) (data : Value) :
    (items : List Value) → (∀ item ∈ items, item.IsInert) →
      evaluateAll (items.map registry.apply) data = pure items
  | [], _ => rfl
  | item :: items, h => by
      obtain ⟨hitem, hitems⟩ := List.forall_mem_cons.mp h
      rw [List.map_cons, evaluateAll_cons, apply_of_isInert registry data item hitem, pure_bind,
        evaluateAll_of_isInert registry data items hitems, pure_bind]

end

end Registry

namespace Command

variable {read : Json.Reader} {text : String}

theorem readValue_of_read {role : Role} {document : Json} (h : read text = some document) :
    readValue read role text = .ok document.toValue := by
  rw [readValue, h]

/-- The command evaluates the value of the rule's text, which here is its own result. -/
theorem applyBy_of_isInert {v : Value} (hinert : v.IsInert) (hfinite : v.IsFinite)
    (htext : read text = some (Json.ofValue v)) (data? : Option String) :
    applyBy read text data? = ((readData read data?).map fun _ => Json.ofValue v, []) := by
  have hrule : readValue read .rule text = .ok v := by
    rw [readValue_of_read htext, Json.toValue_ofValue_eq_self_iff.mpr hfinite]
  have hread : readApplication read text data? =
      (readData read data?).map fun data => (v, data) := by
    rw [readApplication, hrule]
    cases readData read data? with
    | error failure => rfl
    | ok data => rfl
  rw [applyBy, hread]
  cases readData read data? with
  | error failure => rfl
  | ok data =>
      simp only [Except.map, Registry.apply_of_isInert _ _ _ hinert]
      rfl

end Command

namespace Value

/-- What the value gives when it is evaluated, and when it is a document. -/
structure StandsForItself (v : Value) : Prop where
  /-- Without operations it is its own result over every registry and on all data, and nothing
  is logged and no state changed. -/
  evaluated : v.IsInert → ∀ {σ : Type} (registry : Registry σ) (data : Value),
    registry.apply v data = pure v
  /-- So where a rule has it as its result, the evaluation of that result, on whatever data,
  gives it once more, and has logged and changed no more than the rule did. -/
  repeated : v.IsInert → ∀ {σ : Type} (registry : Registry σ) (rule data other : Value)
    (state next : σ) (log : List Json),
    (registry.apply rule data).run state = (⟨.ok v, log⟩, next) →
      (registry.apply v other).run next = (⟨.ok v, []⟩, next) ∧
        (registry.apply rule data >>= fun result => registry.apply result other).run state =
          (⟨.ok v, log⟩, next)
  /-- From its document the value comes back with null for each double that is not finite. -/
  converted : (Json.ofValue v).toValue = v.nullified
  /-- So it comes back as it was when every number in it is finite, and only then. -/
  converted_iff : (Json.ofValue v).toValue = v ↔ v.IsFinite
  /-- Given a text from which the reader takes its document, the command answers with the
  document, unless the data are malformed, and the document is the value. -/
  answered : v.IsInert → v.IsFinite → ∀ (read : Json.Reader) (text : String),
    read text = some (Json.ofValue v) → ∀ data? : Option String,
      Command.applyBy read text data? =
          ((Command.readData read data?).map fun _ => Json.ofValue v, []) ∧
        (Json.ofValue v).toValue = v
  /-- Where the reader inverts the writer, what is written of it is such a text. -/
  returned : v.IsInert → v.IsFinite → (Json.ofValue v).Fits Json.Parser.maxDepth →
    ∀ (read : Json.Reader) (write : Json → String), read.Inverts write →
      ∀ data? : Option String,
        Command.applyBy read (write (Json.ofValue v)) data? =
            ((Command.readData read data?).map fun _ => Json.ofValue v, []) ∧
          (Json.ofValue v).toValue = v

/-- Every value does. -/
theorem standsForItself (v : Value) : StandsForItself v where
  evaluated := fun hinert _ registry data => registry.apply_of_isInert data v hinert
  repeated := by
    intro hinert σ registry rule data other state next log hrun
    have hagain : (registry.apply v other).run next = (⟨.ok v, []⟩, next) := by
      rw [registry.apply_of_isInert other v hinert]
      rfl
    exact ⟨hagain, by rw [Eval.run_bind_of_ok hrun, hagain, List.append_nil]⟩
  converted := Json.toValue_ofValue v
  converted_iff := Json.toValue_ofValue_eq_self_iff
  answered := fun hinert hfinite _ _ htext data? =>
    ⟨Command.applyBy_of_isInert hinert hfinite htext data?,
      Json.toValue_ofValue_eq_self_iff.mpr hfinite⟩
  returned := fun hinert hfinite hfits _ _ hinverts data? =>
    ⟨Command.applyBy_of_isInert hinert hfinite (hinverts _ hfits) data?,
      Json.toValue_ofValue_eq_self_iff.mpr hfinite⟩

/-- Two objects of which neither is an operation, since the one has two fields and the other
none, and an integer. -/
def literals : Value :=
  .list [.object [("rate", .number (.float 0.5)), ("rule", .object [("var", .text "a")])],
    .object [], .number (.int 7)]

theorem isInert_literals : literals.IsInert := by
  rintro key field (_ | ⟨hmem, hlists⟩)
  simp only [List.mem_cons, List.not_mem_nil, or_false] at hmem
  rcases hmem with rfl | rfl | rfl
  · cases hlists
  · cases hlists
  · cases hlists

theorem isFinite_literals : literals.IsFinite := Json.toValue_ofValue_eq_self_iff.mp rfl

theorem ofValue_literals : Json.ofValue literals =
    .list [.object [("rate", .number (.float 0.5) rfl), ("rule", .object [("var", .text "a")])],
      .object [], .number (.int 7) rfl] := rfl

theorem fits_literals : (Json.ofValue literals).Fits Json.Parser.maxDepth := by
  rw [ofValue_literals]
  refine .list fun item hmem => ?_
  simp only [List.mem_cons, List.not_mem_nil, or_false] at hmem
  rcases hmem with rfl | rfl | rfl
  · refine .object (List.pairwise_pair.mpr (by decide)) fun field hfield => ?_
    simp only [List.mem_cons, List.not_mem_nil, or_false] at hfield
    rcases hfield with rfl | rfl
    · exact .number _ _ rfl
    · exact .object (List.pairwise_singleton _ _) (List.forall_mem_singleton.mpr (.text _ _))
  · exact .object List.Pairwise.nil (List.forall_mem_nil _)
  · exact .number _ _ rfl

/-- Scaling restores a half, which is written with one digit. -/
theorem restores_half : Json.Restores Numeral.scaled (.float 0.5) := by
  have htext : Layout.json.chars 0.5 = ['0', '.', '5'] := by decide +kernel
  have hdigits : Numeral.AreDigits ['5'] := List.forall_mem_singleton.mpr rfl
  have hnumber : Json.IsNumber ⟨false, ['0'], ['5'], 0⟩ false (Layout.json.chars 0.5) :=
    htext ▸ .intro .zero (.point hdigits (List.cons_ne_nil _ _)) .none rfl
  exact Json.restores_scaled hnumber (by decide +kernel) (by decide)

theorem restores_literals {n : Number} (h : (Json.ofValue literals).HasNumber n) :
    Json.Restores Numeral.scaled n := by
  rw [ofValue_literals] at h
  rcases h with _ | ⟨hmem, hitem⟩ | _
  simp only [List.mem_cons, List.not_mem_nil, or_false] at hmem
  rcases hmem with rfl | rfl | rfl
  · rcases hitem with _ | _ | ⟨hfield, hnumber⟩
    simp only [List.mem_cons, List.not_mem_nil, or_false] at hfield
    rcases hfield with rfl | rfl
    · cases hnumber
      exact restores_half
    · rcases hnumber with _ | _ | ⟨hinner, htext⟩
      obtain rfl := List.mem_singleton.mp hinner
      cases htext
  · rcases hitem with _ | _ | ⟨hfield, -⟩
    cases hfield
  · cases hitem
    exact Json.restores_int _ 7

/-- The literals are such a value, also as the result of a rule.  The reader that rounds correctly
inverts both writers, and the reader of the program takes the same document from the text. -/
theorem standsForItself_literals :
    literals.IsInert ∧ literals.IsFinite ∧ (Json.ofValue literals).Fits Json.Parser.maxDepth ∧
    ((Registry.builtins.apply (.object [("var", .text "")]) literals).run () =
        (⟨.ok literals, []⟩, ()) ∧
      (Registry.builtins.apply literals .null).run () = (⟨.ok literals, []⟩, ())) ∧
    (∀ write ∈ [Json.compress, Json.pretty],
      Json.Reader.Inverts (Json.parseBy Numeral.toFloat) write ∧
      ∀ data? : Option String,
        Command.applyBy (Json.parseBy Numeral.toFloat) (write (Json.ofValue literals)) data? =
          ((Command.readData (Json.parseBy Numeral.toFloat) data?).map fun _ =>
            Json.ofValue literals, [])) ∧
    (Json.parse? (Json.ofValue literals).compress = some (Json.ofValue literals) ∧
      ∀ data? : Option String,
        Command.applyTexts (Json.ofValue literals).compress data? =
          ((Command.readData Json.parse? data?).map fun _ => Json.ofValue literals, [])) ∧
    (Json.ofValue literals).toValue = literals := by
  have hinert := isInert_literals
  have hfinite := isFinite_literals
  have hfits := fits_literals
  have hresult : (Registry.builtins.apply (.object [("var", .text "")]) literals).run () =
      (⟨.ok literals, []⟩, ()) := rfl
  have hinverts : ∀ write ∈ [Json.compress, Json.pretty],
      Json.Reader.Inverts (Json.parseBy Numeral.toFloat) write :=
    List.forall_mem_cons.mpr
      ⟨Json.inverts_compress, List.forall_mem_singleton.mpr Json.inverts_pretty⟩
  have hread : Json.parse? (Json.ofValue literals).compress = some (Json.ofValue literals) :=
    Json.parseBy_chars Json.Style.compact_isReadable hfits fun _ => restores_literals
  refine ⟨hinert, hfinite, hfits, ⟨hresult, ?_⟩, fun write hwrite => ⟨hinverts write hwrite, ?_⟩,
    ⟨hread, ?_⟩, (standsForItself literals).converted_iff.mpr hfinite⟩
  · exact ((standsForItself literals).repeated hinert _ _ _ .null () () [] hresult).1
  · exact fun data? => ((standsForItself literals).returned hinert hfinite hfits _ write
      (hinverts write hwrite) data?).1
  · exact fun data? => ((standsForItself literals).answered hinert hfinite _ _ hread data?).1

end Value

end DataRules
