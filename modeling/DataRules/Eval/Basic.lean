import DataRules.Json.Basic

set_option autoImplicit false

/-!
# Eval: evaluations and their outcomes

An evaluation ends with a value or an error, and on the way it may emit log
entries and change the state that host operations share.  `Eval σ α` is such an
evaluation, `σ` being the type of that state; engines without host state take
`Unit`.  What was logged before an error stays in the outcome, and nothing is
done after one.
-/

namespace DataRules

/-- Why an evaluation failed. -/
inductive Error where
  /-- No operation has the name.  For a dotted name, `failedAt` is the front part
  up to and including the segment that could not be resolved. -/
  | unrecognized (operator : String) (failedAt : Option String)
  /-- A host operation failed with a message. -/
  | raised (message : String)
  deriving DecidableEq, Repr

namespace Error

/-- The text of an error. -/
def message : Error → String
  | .unrecognized operator none => "Unrecognized operation " ++ operator
  | .unrecognized operator (some front) =>
      "Unrecognized operation " ++ operator ++ " (failed at " ++ front ++ ")"
  | .raised message => message

end Error

/-- How an evaluation ended, and what it logged in order. -/
structure Outcome (α : Type) where
  result : Except Error α
  log : List Json

/-- An evaluation that may log, fail, and change a host state. -/
def Eval (σ α : Type) : Type := σ → Outcome α × σ

namespace Eval

variable {σ α β : Type}

/-- The evaluation started in a host state. -/
def run (m : Eval σ α) (state : σ) : Outcome α × σ := m state

/-- Ends with a value. -/
def done (a : α) : Eval σ α := fun state => (⟨.ok a, []⟩, state)

/-- Ends with an error. -/
def fail (error : Error) : Eval σ α := fun state => (⟨.error error, []⟩, state)

/-- Adds one entry to the log. -/
def emit (entry : Json) : Eval σ Unit := fun state => (⟨.ok (), [entry]⟩, state)

/-- Reads and replaces the host state. -/
def update (f : σ → α × σ) : Eval σ α := fun state =>
  match f state with
  | (a, state) => (⟨.ok a, []⟩, state)

/-- The second evaluation runs on the value of the first, if there is one, and
its log comes after the first one's. -/
def andThen (m : Eval σ α) (f : α → Eval σ β) : Eval σ β := fun state =>
  match m state with
  | (⟨.ok a, log⟩, state) =>
      match f a state with
      | (outcome, state) => (⟨outcome.result, log ++ outcome.log⟩, state)
  | (⟨.error error, log⟩, state) => (⟨.error error, log⟩, state)

instance : Monad (Eval σ) where
  pure := done
  bind := andThen

theorem pure_def (a : α) : (pure a : Eval σ α) = done a := rfl

theorem bind_def (m : Eval σ α) (f : α → Eval σ β) : m >>= f = m.andThen f := rfl

theorem done_andThen (a : α) (f : α → Eval σ β) : (done a).andThen f = f a := by
  funext state
  simp [andThen, done]

theorem andThen_done (m : Eval σ α) : m.andThen done = m := by
  funext state
  unfold andThen
  rcases m state with ⟨⟨_ | a, log⟩, state⟩ <;> simp [done]

theorem andThen_assoc {γ : Type} (m : Eval σ α) (f : α → Eval σ β) (g : β → Eval σ γ) :
    (m.andThen f).andThen g = m.andThen fun a => (f a).andThen g := by
  funext state
  simp only [andThen]
  rcases m state with ⟨⟨_ | a, log⟩, state⟩
  · rfl
  · dsimp only
    rcases f a state with ⟨⟨_ | b, more⟩, state⟩ <;> simp

instance : LawfulMonad (Eval σ) :=
  LawfulMonad.mk' (Eval σ) (fun m => andThen_done m) (fun a f => done_andThen a f)
    (fun m f g => andThen_assoc m f g)

end Eval

end DataRules
