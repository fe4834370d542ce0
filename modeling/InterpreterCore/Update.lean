import InterpreterCore.Fault

namespace InterpreterCore

/-- An operation that changes a state. A failed operation leaves a state too, and says nothing by
    its type about which one. -/
abbrev Update (σ α : Type) : Type := EStateM Fault σ α

namespace Update

variable {σ τ α : Type}

/-- An operation that reads the state and leaves it alone. -/
def read (look : σ → Outcome α) : Update σ α := fun state =>
  match look state with
  | .ok value => .ok value state
  | .error fault => .error fault state

/-- An operation on a part of a state. Where the part is missing it fails and changes nothing. -/
def within (part : σ → Outcome τ) (put : τ → σ → σ) (operation : Update τ α) : Update σ α :=
  fun state =>
    match part state with
    | .error fault => .error fault state
    | .ok inner =>
      match operation inner with
      | .ok value inner => .ok value (put inner state)
      | .error fault inner => .error fault (put inner state)

/-- What an operation answers in a state. -/
def answer (operation : Update σ α) (state : σ) : Outcome α :=
  match operation state with
  | .ok value _ => .ok value
  | .error fault _ => .error fault

/-- The state that an operation leaves, also when it fails. -/
def after (operation : Update σ α) (state : σ) : σ :=
  match operation state with
  | .ok _ state => state
  | .error _ state => state

@[simp]
theorem answer_read (look : σ → Outcome α) (state : σ) : (read look).answer state = look state := by
  simp only [answer, read]
  cases look state <;> rfl

@[simp]
theorem after_read (look : σ → Outcome α) (state : σ) : (read look).after state = state := by
  simp only [after, read]
  cases look state <;> rfl

theorem answer_within (part : σ → Outcome τ) (put : τ → σ → σ) (operation : Update τ α)
    (state : σ) :
    (within part put operation).answer state = part state >>= operation.answer := by
  simp only [answer, within]
  cases part state with
  | error fault => rfl
  | ok inner =>
    dsimp only [bind, Except.bind]
    simp only [answer]
    cases operation inner <;> rfl

theorem after_within (part : σ → Outcome τ) (put : τ → σ → σ) (operation : Update τ α)
    (state : σ) :
    (within part put operation).after state =
      match part state with
      | .error _ => state
      | .ok inner => put (operation.after inner) state := by
  simp only [after, within]
  cases part state with
  | error fault => rfl
  | ok inner =>
    dsimp only
    cases operation inner <;> rfl

end Update

end InterpreterCore
