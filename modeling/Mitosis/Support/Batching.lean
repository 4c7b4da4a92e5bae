import Mathlib.Data.List.Basic

/-!
# Loops that fill a buffer

A loop puts what it meets into a buffer and flushes the buffer when it is full; what is left
at the end is flushed once more.  Such a loop does what a loop over batches does, and the
batches are the elements in order, each of them once.
-/

namespace Mitosis.Support

variable {α σ : Type*} (n : ℕ)

/-- One round of the loop, with room for `n` elements. -/
def bufferOne (flush : σ → List α → σ) (s : σ × List α) (x : α) : σ × List α :=
  let buf := if s.2.length < n then s.2 ++ [x] else s.2
  if n = buf.length then (flush s.1 buf, []) else (s.1, buf)

def flushRest (flush : σ → List α → σ) (s : σ × List α) : σ :=
  if s.2.isEmpty then s.1 else flush s.1 s.2

/-- The batches of such a loop that starts with the buffer `buf`. -/
def batches : List α → List α → List (List α)
  | buf, [] => if buf.isEmpty then [] else [buf]
  | buf, x :: xs =>
    if n = buf.length + 1 then (buf ++ [x]) :: batches [] xs else batches (buf ++ [x]) xs

variable {n}

theorem flatten_batches (buf xs : List α) : (batches n buf xs).flatten = buf ++ xs := by
  induction xs generalizing buf with
  | nil =>
    cases buf with
    | nil => rfl
    | cons x buf => simp [batches]
  | cons x xs ih =>
    rw [batches]
    split
    · rw [List.flatten_cons, ih, List.nil_append, List.append_assoc, List.singleton_append]
    · rw [ih, List.append_assoc, List.singleton_append]

theorem bufferOne_of_lt {flush : σ → List α → σ} (s : σ) {buf : List α} (x : α)
    (hbuf : buf.length < n) :
    bufferOne n flush (s, buf) x =
      if n = buf.length + 1 then (flush s (buf ++ [x]), []) else (s, buf ++ [x]) := by
  simp only [bufferOne, if_pos hbuf, List.length_append, List.length_singleton]

theorem foldl_batches {flush : σ → List α → σ} (s : σ) {buf : List α} (hbuf : buf.length < n)
    (xs : List α) :
    flushRest flush (xs.foldl (bufferOne n flush) (s, buf)) =
      (batches n buf xs).foldl flush s := by
  induction xs generalizing s buf with
  | nil =>
    rw [List.foldl_nil, flushRest, batches]
    split <;> rfl
  | cons x xs ih =>
    rw [List.foldl_cons, bufferOne_of_lt s x hbuf, batches]
    split
    · exact ih (flush s (buf ++ [x])) (by rw [List.length_nil]; omega)
    · exact ih s (by rw [List.length_append, List.length_singleton]; omega)

end Mitosis.Support
