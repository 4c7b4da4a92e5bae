import Mathlib.Order.Bounds.Basic
import Mathlib.Data.List.Sort
import Mathlib.Tactic.Ring

/-!
# Ordered scans

The next number with a property, and the lists that a scan by repeated next
numbers enumerates.  The block rules are for keys that are split into a block
number and an index: the next key is found in the block at hand, or it is the
first one of the next block that has any.
-/

namespace Mitosis.Support

variable {P Q : ℕ → Prop} {start : ℕ}

/-- The first number from `start` on with property `P`, if there is one. -/
def IsNext (P : ℕ → Prop) (start : ℕ) : Option ℕ → Prop
  | some k => IsLeast {c | start ≤ c ∧ P c} k
  | none => ∀ c, start ≤ c → ¬ P c

theorem IsNext.le {k : ℕ} (h : IsNext P start (some k)) : start ≤ k := h.1.1

theorem IsNext.holds {k : ℕ} (h : IsNext P start (some k)) : P k := h.1.2

/-- The numbers from `start` on with property `P`, each once, in increasing
order. -/
structure Enumerates (P : ℕ → Prop) (start : ℕ) (l : List ℕ) : Prop where
  sorted : l.Pairwise (· < ·)
  mem : ∀ k, k ∈ l ↔ start ≤ k ∧ P k

theorem Enumerates.nil (h : IsNext P start none) : Enumerates P start [] where
  sorted := .nil
  mem k := by
    simp only [List.not_mem_nil, false_iff, not_and]
    exact h k

theorem Enumerates.cons {k : ℕ} {l : List ℕ}
    (hk : IsNext P start (some k)) (hl : Enumerates P (k + 1) l) :
    Enumerates P start (k :: l) where
  sorted := by
    refine List.Pairwise.cons ?_ hl.sorted
    intro c hc
    exact ((hl.mem c).mp hc).1
  mem c := by
    rw [List.mem_cons, hl.mem]
    constructor
    · rintro (rfl | ⟨hlt, hc⟩)
      · exact hk.1
      · exact ⟨hk.le.trans (Nat.le_of_succ_le hlt), hc⟩
    · rintro ⟨hle, hc⟩
      rcases (hk.2 ⟨hle, hc⟩).eq_or_lt with heq | hlt
      · exact Or.inl heq.symm
      · exact Or.inr ⟨hlt, hc⟩

theorem Enumerates.unique {l l' : List ℕ} (hl : Enumerates P start l)
    (hl' : Enumerates P start l') : l = l' :=
  hl.sorted.eq_of_mem_iff hl'.sorted fun k => (hl.mem k).trans (hl'.mem k).symm

theorem IsNext.unique {r r' : Option ℕ} (hr : IsNext P start r) (hr' : IsNext P start r') :
    r = r' := by
  cases r with
  | none =>
    cases r' with
    | none => rfl
    | some k => exact absurd hr'.holds (hr k hr'.le)
  | some k =>
    cases r' with
    | none => exact absurd hr.holds (hr' k hr.le)
    | some k' => exact congrArg some (IsLeast.unique hr hr')

theorem IsNext.of_skip {start' : ℕ} {r : Option ℕ} (hle : start ≤ start')
    (hskip : ∀ c, start ≤ c → P c → start' ≤ c) (hr : IsNext P start' r) :
    IsNext P start r := by
  cases r with
  | none =>
    intro c hc hP
    exact hr c (hskip c hc hP) hP
  | some k =>
    refine ⟨⟨hle.trans hr.le, hr.holds⟩, ?_⟩
    rintro c ⟨hc, hP⟩
    exact hr.2 ⟨hskip c hc hP, hP⟩

/-! ## Blocks -/

section Blocks

variable {b k i j : ℕ}

theorem IsNext.sameBlock (hij : i ≤ j) (hj : P (b * k + j))
    (hbefore : ∀ m, i ≤ m → m < j → ¬ P (b * k + m)) :
    IsNext P (b * k + i) (some (b * k + j)) := by
  refine ⟨⟨by omega, hj⟩, ?_⟩
  rintro c ⟨hle, hc⟩
  by_contra hlt
  obtain ⟨m, rfl⟩ := Nat.exists_eq_add_of_le (le_of_add_le_left hle)
  exact hbefore m (by omega) (by omega) hc

theorem IsNext.skipBlock {r : Option ℕ} (hi : i ≤ b)
    (hrest : ∀ m, i ≤ m → m < b → ¬ P (b * k + m))
    (hr : IsNext P (b * (k + 1)) r) : IsNext P (b * k + i) r := by
  have hblock : b * (k + 1) = b * k + b := by ring
  refine hr.of_skip (by omega) ?_
  intro c hle hc
  by_contra hlt
  obtain ⟨m, rfl⟩ := Nat.exists_eq_add_of_le (le_of_add_le_left hle)
  exact hrest m (by omega) (by omega) hc

theorem IsNext.laterBlock {r : Option ℕ}
    (hparent : ∀ c, P c → Q (c / b)) (hb : 0 < b)
    (hk : IsNext Q start (some k)) (hr : IsNext P (b * k) r) :
    IsNext P (b * start) r := by
  refine hr.of_skip (Nat.mul_le_mul_left b hk.le) ?_
  intro c hle hc
  have hblock : k ≤ c / b :=
    hk.2 ⟨(Nat.le_div_iff_mul_le hb).mpr (by rwa [Nat.mul_comm]),
      hparent c hc⟩
  exact (Nat.mul_le_mul_left b hblock).trans (Nat.mul_div_le c b)

theorem IsNext.noBlock (hparent : ∀ c, P c → Q (c / b)) (hb : 0 < b)
    (hnone : IsNext Q start none) : IsNext P (b * start) none := by
  intro c hle hc
  exact hnone (c / b) ((Nat.le_div_iff_mul_le hb).mpr (by rwa [Nat.mul_comm]))
    (hparent c hc)

end Blocks

end Mitosis.Support
