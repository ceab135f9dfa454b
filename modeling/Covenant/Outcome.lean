import Mathlib.Algebra.Group.Nat.Defs
import Mathlib.Data.List.Forall2

/-! How a Go function can end: with a value, with an error that it returns, or with a
panic. The inversion lemmas turn a successful computation into the list of its
successful steps. -/

namespace Outcome

/-- A Go error, kept as its text. -/
abbrev GoError := String

/-- The two ways to leave a function other than with its value. -/
inductive Exit
  | panic (msg : String)
  | error (err : GoError)
  deriving DecidableEq, Repr

abbrev Go (α : Type) := Except Exit α

/-- How a program can end other than with a result of its own. -/
inductive Halt
  | panic (msg : String)
  | diverge
  deriving DecidableEq, Repr

/-- A slice: its length is an `int`. -/
structure Slice (α : Type) where
  elems : List α
  len_lt : elems.length < 2 ^ 63

variable {α β ε : Type}

/-- `if err != nil { return nil, err }`. -/
def orReturn : Except GoError α → Go α
  | .ok a => .ok a
  | .error e => .error (.error e)

/-- `if err != nil { return nil, fmt.Errorf("msg: %w", err) }`. -/
def orWrap (msg : String) : Except GoError α → Go α
  | .ok a => .ok a
  | .error e => .error (.error (msg ++ ": " ++ e))

/-- The same around a function that may also panic. -/
def wrapError (msg : String) : Go α → Go α
  | .error (.error e) => .error (.error (msg ++ ": " ++ e))
  | x => x

/-- `if c { return nil, err }`. -/
def rejectIf (c : Prop) [Decidable c] (err : GoError) : Go Unit :=
  if c then .error (.error err) else .ok ()

def nilDereference : String := "invalid memory address or nil pointer dereference"

/-- Use of a pointer: a nil pointer panics. -/
def deref : Option α → Go α
  | some a => .ok a
  | none => .error (.panic nilDereference)

/-- `xs[i]`, which panics out of range. -/
def index (xs : List α) (i : Nat) : Go α :=
  match xs[i]? with
  | some a => .ok a
  | none => .error (.panic "index out of range")

theorem bind_eq_ok_iff {x : Except ε α} {f : α → Except ε β} {b : β} :
    (x >>= f) = .ok b ↔ ∃ a, x = .ok a ∧ f a = .ok b := by
  cases x with
  | error e => simp [bind, Except.bind]
  | ok a => simp [bind, Except.bind]

@[simp] theorem orReturn_eq_ok {x : Except GoError α} {a : α} :
    orReturn x = .ok a ↔ x = .ok a := by
  cases x <;> simp [orReturn]

@[simp] theorem orWrap_eq_ok {msg : String} {x : Except GoError α} {a : α} :
    orWrap msg x = .ok a ↔ x = .ok a := by
  cases x <;> simp [orWrap]

@[simp] theorem deref_eq_ok {x : Option α} {a : α} : deref x = .ok a ↔ x = some a := by
  cases x <;> simp [deref]

@[simp] theorem index_eq_ok {xs : List α} {i : Nat} {a : α} :
    index xs i = .ok a ↔ xs[i]? = some a := by
  unfold index
  cases xs[i]? <;> simp

@[simp] theorem rejectIf_eq_ok {c : Prop} [Decidable c] {err : GoError} {u : Unit} :
    rejectIf c err = .ok u ↔ ¬ c := by
  by_cases hc : c <;> simp [rejectIf, hc]

@[simp] theorem wrapError_eq_ok {msg : String} {x : Go α} {a : α} :
    wrapError msg x = .ok a ↔ x = .ok a := by
  rcases x with e | b
  · cases e <;> simp [wrapError]
  · simp [wrapError]

/-! ## Panics -/

theorem bind_eq_error_iff {x : Except ε α} {f : α → Except ε β} {e : ε} :
    (x >>= f) = .error e ↔ x = .error e ∨ ∃ a, x = .ok a ∧ f a = .error e := by
  cases x with
  | error e' => simp [bind, Except.bind]
  | ok a => simp [bind, Except.bind]

@[simp] theorem orReturn_ne_panic {x : Except GoError α} {msg : String} :
    orReturn x ≠ .error (.panic msg) := by
  cases x <;> simp [orReturn]

@[simp] theorem orWrap_ne_panic {m : String} {x : Except GoError α} {msg : String} :
    orWrap m x ≠ .error (.panic msg) := by
  cases x <;> simp [orWrap]

@[simp] theorem rejectIf_ne_panic {c : Prop} [Decidable c] {err : GoError} {msg : String} :
    rejectIf c err ≠ .error (.panic msg) := by
  by_cases hc : c <;> simp [rejectIf, hc]

@[simp] theorem wrapError_eq_panic {m : String} {x : Go α} {msg : String} :
    wrapError m x = .error (.panic msg) ↔ x = .error (.panic msg) := by
  rcases x with e | b
  · cases e <;> simp [wrapError]
  · simp [wrapError]

@[simp] theorem index_eq_panic {xs : List α} {i : Nat} {msg : String} :
    index xs i = .error (.panic msg) ↔ xs[i]? = none ∧ msg = "index out of range" := by
  unfold index
  cases xs[i]? with
  | none => simp [eq_comm]
  | some a => simp

/-- A loop whose body does not panic does not panic. -/
theorem mapM_ne_panic {f : α → Go β} (h : ∀ x msg, f x ≠ .error (.panic msg)) (xs : List α)
    (msg : String) : xs.mapM f ≠ .error (.panic msg) := by
  induction xs with
  | nil => nofun
  | cons x xs ih =>
    rw [List.mapM_cons, ne_eq, bind_eq_error_iff]
    rintro (hx | ⟨y, _, hr⟩)
    · exact h x msg hx
    · rcases bind_eq_error_iff.mp hr with hr | ⟨ys, _, hr⟩
      · exact ih hr
      · cases hr

/-! ## Loops -/

/-- A loop that appends one result for each element, and stops at the first exit. -/
theorem mapM_eq_ok_iff {f : α → Except ε β} {xs : List α} {ys : List β} :
    xs.mapM f = .ok ys ↔ List.Forall₂ (fun x y => f x = .ok y) xs ys := by
  induction xs generalizing ys with
  | nil =>
    simp only [List.mapM_nil, pure, Except.pure, Except.ok.injEq, List.forall₂_nil_left_iff]
    exact eq_comm
  | cons x xs ih =>
    rw [List.mapM_cons, bind_eq_ok_iff, List.forall₂_cons_left_iff]
    constructor
    · rintro ⟨y, hy, h⟩
      obtain ⟨zs, hzs, h⟩ := bind_eq_ok_iff.mp h
      simp only [pure, Except.pure, Except.ok.injEq] at h
      exact ⟨y, zs, hy, ih.mp hzs, h.symm⟩
    · rintro ⟨y, zs, hy, hzs, rfl⟩
      exact ⟨y, hy, bind_eq_ok_iff.mpr ⟨zs, ih.mpr hzs, rfl⟩⟩

end Outcome
