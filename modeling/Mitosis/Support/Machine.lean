import Mathlib.Data.List.Induction

/-!
# Machines and their runs

A deterministic machine answers each action with an output.  Everything that
the environment chooses is part of the action, so a run is a list of actions.
The rules below are the inductions over runs: an invariant that every admitted
step keeps, what it makes of the outputs, and a relation between two machines
that every step keeps while the outputs agree.
-/

namespace Mitosis.Support

/-- A deterministic machine with outputs. -/
structure Machine (State Action Output : Type*) where
  step : State → Action → State × Output

namespace Machine

variable {State State' Action Output : Type*}

def run (M : Machine State Action Output) : State → List Action → State
  | s, [] => s
  | s, a :: as => run M (M.step s a).1 as

def outputs (M : Machine State Action Output) :
    State → List Action → List Output
  | _, [] => []
  | s, a :: as => (M.step s a).2 :: outputs M (M.step s a).1 as

/-- The actions of a run with their outputs. -/
def trace (M : Machine State Action Output) :
    State → List Action → List (Action × Output)
  | _, [] => []
  | s, a :: as => (a, (M.step s a).2) :: trace M (M.step s a).1 as

/-- Every step of the run meets a condition on its state and action. -/
def Always (M : Machine State Action Output) (ok : State → Action → Prop) :
    State → List Action → Prop
  | _, [] => True
  | s, a :: as => ok s a ∧ Always M ok (M.step s a).1 as

instance decidableAlways (M : Machine State Action Output) (ok : State → Action → Prop)
    [∀ s a, Decidable (ok s a)] : ∀ s as, Decidable (M.Always ok s as)
  | _, [] => isTrue trivial
  | s, a :: as =>
    have := decidableAlways M ok (M.step s a).1 as
    inferInstanceAs (Decidable (ok s a ∧ M.Always ok (M.step s a).1 as))

variable {M : Machine State Action Output} {s : State} {ok : State → Action → Prop}
  {as : List Action}

@[simp] theorem run_nil (M : Machine State Action Output) (s : State) :
    M.run s [] = s := rfl

@[simp] theorem run_cons (M : Machine State Action Output) (s : State)
    (a : Action) (as : List Action) :
    M.run s (a :: as) = M.run (M.step s a).1 as := rfl

@[simp] theorem outputs_nil (M : Machine State Action Output) (s : State) :
    M.outputs s [] = [] := rfl

@[simp] theorem outputs_cons (M : Machine State Action Output) (s : State)
    (a : Action) (as : List Action) :
    M.outputs s (a :: as) =
      (M.step s a).2 :: M.outputs (M.step s a).1 as := rfl

theorem run_append (M : Machine State Action Output) (s : State) (as bs : List Action) :
    M.run s (as ++ bs) = M.run (M.run s as) bs := by
  induction as generalizing s with
  | nil => rfl
  | cons a as ih => exact ih _

theorem run_concat (M : Machine State Action Output) (s : State) (as : List Action)
    (a : Action) : M.run s (as ++ [a]) = (M.step (M.run s as) a).1 :=
  M.run_append s as [a]

theorem trace_concat (M : Machine State Action Output) (s : State) (as : List Action)
    (a : Action) :
    M.trace s (as ++ [a]) = M.trace s as ++ [(a, (M.step (M.run s as) a).2)] := by
  induction as generalizing s with
  | nil => rfl
  | cons b bs ih => exact congrArg (List.cons _) (ih _)

theorem trace_induction (P : State → List (Action × Output) → Prop) (hnil : P s [])
    (hstep : ∀ s' tr a, P s' tr → P (M.step s' a).1 (tr ++ [(a, (M.step s' a).2)]))
    (as : List Action) : P (M.run s as) (M.trace s as) := by
  induction as using List.reverseRecOn with
  | nil => exact hnil
  | append_singleton as a ih =>
    rw [run_concat, trace_concat]
    exact hstep _ _ a ih

theorem always_of_forall (hok : ∀ s a, ok s a) (s : State)
    (as : List Action) : M.Always ok s as := by
  induction as generalizing s with
  | nil => trivial
  | cons a as ih => exact ⟨hok s a, ih _⟩

theorem always_and {ok ok' : State → Action → Prop} :
    M.Always (fun s a => ok s a ∧ ok' s a) s as ↔ M.Always ok s as ∧ M.Always ok' s as := by
  induction as generalizing s with
  | nil => simp [Always]
  | cons a as ih =>
    rw [Always, Always, Always, ih]
    exact and_and_and_comm

theorem always_append {as bs : List Action} :
    M.Always ok s (as ++ bs) ↔ M.Always ok s as ∧ M.Always ok (M.run s as) bs := by
  induction as generalizing s with
  | nil => simp [Always]
  | cons a as ih =>
    rw [List.cons_append, Always, ih, Always, and_assoc]
    rfl

theorem always_concat {a : Action} :
    M.Always ok s (as ++ [a]) ↔ M.Always ok s as ∧ ok (M.run s as) a := by
  rw [always_append, Always, Always, and_true]

/-- What every admitted step keeps holds after every admitted run. -/
theorem invariant (inv : State → Prop)
    (hstep : ∀ s a, inv s → ok s a → inv (M.step s a).1) (hs : inv s) (has : M.Always ok s as) :
    inv (M.run s as) := by
  induction as generalizing s with
  | nil => exact hs
  | cons a as ih =>
    obtain ⟨ha, hrest⟩ := has
    exact ih (hstep s a hs ha) hrest

theorem always_of_forall_mem {ok : Action → Prop} (hok : ∀ a ∈ as, ok a) (s : State) :
    M.Always (fun _ a => ok a) s as := by
  induction as generalizing s with
  | nil => trivial
  | cons a as ih =>
    exact ⟨hok a List.mem_cons_self, ih (fun b hb => hok b (List.mem_cons_of_mem _ hb)) _⟩

theorem always_of_invariant {ok good : State → Action → Prop} (inv : State → Prop)
    (hstep : ∀ s a, inv s → ok s a → inv (M.step s a).1 ∧ good s a) (hs : inv s)
    (has : M.Always ok s as) :
    M.Always good s as := by
  induction as generalizing s with
  | nil => trivial
  | cons a as ih =>
    obtain ⟨ha, hrest⟩ := has
    obtain ⟨hinv, hgood⟩ := hstep s a hs ha
    exact ⟨hgood, ih hinv hrest⟩

/-- Two conditions that agree where an invariant holds, of which one keeps it,
hold along the same admitted runs. -/
theorem always_iff_of_invariant {ok good good' : State → Action → Prop} (inv : State → Prop)
    (hiff : ∀ s a, inv s → ok s a → (good s a ↔ good' s a))
    (hstep : ∀ s a, inv s → ok s a → good' s a → inv (M.step s a).1) (hs : inv s)
    (has : M.Always ok s as) :
    M.Always good s as ↔ M.Always good' s as := by
  induction as generalizing s with
  | nil => exact Iff.rfl
  | cons a as ih =>
    obtain ⟨ha, hrest⟩ := has
    constructor
    · rintro ⟨hgood, hgoods⟩
      have hgood' := (hiff s a hs ha).mp hgood
      exact ⟨hgood', (ih (hstep s a hs ha hgood') hrest).mp hgoods⟩
    · rintro ⟨hgood', hgoods'⟩
      exact ⟨(hiff s a hs ha).mpr hgood', (ih (hstep s a hs ha hgood') hrest).mpr hgoods'⟩

theorem forall_outputs_iff {good : Output → Prop} :
    (∀ o ∈ M.outputs s as, good o) ↔ M.Always (fun s a => good (M.step s a).2) s as := by
  induction as generalizing s with
  | nil => simp [Always]
  | cons a as ih =>
    rw [outputs_cons, List.forall_mem_cons, ih]
    exact Iff.rfl

theorem outputs_of_invariant (inv : State → Prop) (good : Output → Prop)
    (hstep : ∀ s a, inv s → ok s a → inv (M.step s a).1 ∧ good (M.step s a).2) (hs : inv s)
    (has : M.Always ok s as) :
    ∀ o ∈ M.outputs s as, good o :=
  forall_outputs_iff.mpr (always_of_invariant inv hstep hs has)

/-- If every step of a machine is an admitted run of another one, every run is. -/
theorem exists_run_of_step {Action' Output' : Type*}
    {N : Machine State' Action' Output'} {ok : State' → Action' → Prop} (abs : State → State')
    (hstep : ∀ s a, ∃ bs, N.Always ok (abs s) bs ∧ N.run (abs s) bs = abs (M.step s a).1)
    (s : State) (as : List Action) :
    ∃ bs, N.Always ok (abs s) bs ∧ N.run (abs s) bs = abs (M.run s as) := by
  induction as generalizing s with
  | nil => exact ⟨[], trivial, rfl⟩
  | cons a as ih =>
    obtain ⟨bs, hok, hrun⟩ := hstep s a
    obtain ⟨bs', hok', hrun'⟩ := ih (M.step s a).1
    rw [← hrun] at hok' hrun'
    exact ⟨bs ++ bs', always_append.mpr ⟨hok, hok'⟩, (run_append ..).trans hrun'⟩

/-- Two machines that stay related and answer alike at every admitted action
are related after a run and have the same outputs. -/
theorem simulation {N : Machine State' Action Output} {ok : Action → Prop}
    {rel : State → State' → Prop}
    (hstep : ∀ s t a, rel s t → ok a →
      rel (M.step s a).1 (N.step t a).1 ∧ (M.step s a).2 =
    (N.step t a).2) {t : State'} (hst : rel s t)
    (has : ∀ a ∈ as, ok a) :
    rel (M.run s as) (N.run t as) ∧ M.outputs s as = N.outputs t as := by
  induction as generalizing s t with
  | nil => exact ⟨hst, rfl⟩
  | cons a as ih =>
    obtain ⟨hrel, hout⟩ := hstep s t a hst (has a (by simp))
    obtain ⟨hfinal, houts⟩ := ih hrel fun b hb => has b (by simp [hb])
    refine ⟨hfinal, ?_⟩
    rw [outputs_cons, outputs_cons, hout, houts]

end Machine

end Mitosis.Support
