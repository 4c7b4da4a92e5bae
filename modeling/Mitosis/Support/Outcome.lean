import Mathlib.Tactic.Ring

/-!
# Computations that stop early

A computation either produces a value, returns the absent value to its caller
before its end, or aborts the thread.  The two ways to stop are kept apart:
the first is an ordinary result of the function, the second never is.
-/

namespace Mitosis.Support

/-- Why a computation has no value. -/
inductive Stop where
  | absent
  | panicked
deriving DecidableEq, Repr

/-- A value, an early absent result, or an abort. -/
abbrev Outcome (α : Type) := Except Stop α

namespace Outcome

variable {α β : Type}

/-- Return the absent value to the caller unless there is a value. -/
def orAbsent : Option α → Outcome α
  | some a => .ok a
  | none => .error .absent

/-- Abort unless there is a value. -/
def unwrap : Option α → Outcome α
  | some a => .ok a
  | none => .error .panicked

/-- Abort unless the condition holds. -/
def assert (p : Prop) [Decidable p] : Outcome Unit :=
  if p then .ok () else .error .panicked

/-- The result of an addition or a multiplication of 64-bit words; the build checks for
overflow, and an overflow aborts. -/
def checked (n : ℕ) : Outcome ℕ := if n < 2 ^ 64 then .ok n else .error .panicked

@[simp] theorem orAbsent_some (a : α) : orAbsent (some a) = .ok a := rfl

@[simp] theorem orAbsent_none : orAbsent (none : Option α) = .error .absent := rfl

@[simp] theorem unwrap_some (a : α) : unwrap (some a) = .ok a := rfl

@[simp] theorem unwrap_none : unwrap (none : Option α) = .error .panicked := rfl

@[simp] theorem assert_true {p : Prop} [Decidable p] (h : p) :
    assert p = .ok () := if_pos h

theorem checked_of_lt {n : ℕ} (h : n < 2 ^ 64) : checked n = .ok n := if_pos h

theorem checked_of_le {n : ℕ} (h : 2 ^ 64 ≤ n) : checked n = .error .panicked :=
  if_neg (Nat.not_lt.mpr h)

@[simp] theorem ok_bind (a : α) (f : α → Outcome β) :
    ((.ok a : Outcome α) >>= f) = f a := rfl

@[simp] theorem error_bind (e : Stop) (f : α → Outcome β) :
    ((.error e : Outcome α) >>= f) = .error e := rfl

@[simp] theorem pure_eq_ok (a : α) : (pure a : Outcome α) = .ok a := rfl

/-- A computation produces a value exactly when each of its steps does. -/
theorem bind_eq_ok {ε : Type} {x : Except ε α} {f : α → Except ε β} {b : β} :
    (x >>= f) = .ok b ↔ ∃ a, x = .ok a ∧ f a = .ok b := by
  constructor
  · intro h
    cases x with
    | error e => cases h
    | ok a => exact ⟨a, rfl, h⟩
  · rintro ⟨a, rfl, h⟩
    exact h

@[simp] theorem orAbsent_eq_ok {o : Option α} {a : α} :
    orAbsent o = .ok a ↔ o = some a := by
  cases o <;> simp

@[simp] theorem unwrap_eq_ok {o : Option α} {a : α} :
    unwrap o = .ok a ↔ o = some a := by
  cases o <;> simp

/-- Why a computation stops can be tested without comparing values. -/
instance (priority := low) decidableEqError {ε : Type} [DecidableEq ε] (x : Except ε α) (e : ε) :
    Decidable (x = .error e) :=
  match x with
  | .ok _ => isFalse nofun
  | .error e' => decidable_of_iff (e' = e) (by simp)

end Outcome

end Mitosis.Support
