import Mitosis.Support.Machine

/-!
# Components of a machine

A machine may be put together from others: each of its steps is one step of a component, or
none.  Then each of its runs is a run of the component, and what is known about the runs of
the component can be used for the whole.
-/

namespace Mitosis.Support

variable {S A O T B P : Type*}

/-- The machine `N` as a component of `M`: its state, and what a step of `M` makes it do. -/
structure Component (M : Machine S A O) (N : Machine T B P) where
  state : S → T
  part : S → A → Option B
  state_step : ∀ s a, state (M.step s a).1 = N.run (state s) (part s a).toList

namespace Component

variable {M : Machine S A O} {N : Machine T B P} (C : Component M N)

/-- What a run makes the component do. -/
def parts : S → List A → List B
  | _, [] => []
  | s, a :: as => (C.part s a).toList ++ parts (M.step s a).1 as

theorem parts_append (s : S) (as bs : List A) :
    C.parts s (as ++ bs) = C.parts s as ++ C.parts (M.run s as) bs := by
  induction as generalizing s with
  | nil => rfl
  | cons a as ih => rw [List.cons_append, parts, parts, ih, List.append_assoc, Machine.run_cons]

theorem parts_concat (s : S) (as : List A) (a : A) :
    C.parts s (as ++ [a]) = C.parts s as ++ (C.part (M.run s as) a).toList := by
  rw [parts_append, parts, parts, List.append_nil]

theorem state_run (s : S) (as : List A) :
    C.state (M.run s as) = N.run (C.state s) (C.parts s as) := by
  induction as generalizing s with
  | nil => rfl
  | cons a as ih => rw [Machine.run_cons, ih, C.state_step, parts, Machine.run_append]

/-- A condition on the steps of the component is one on those steps of the machine that are
steps of the component. -/
theorem always_parts {ok : T → B → Prop} {s : S} {as : List A} :
    N.Always ok (C.state s) (C.parts s as) ↔
      M.Always (fun s a => ∀ b ∈ C.part s a, ok (C.state s) b) s as := by
  induction as generalizing s with
  | nil => exact Iff.rfl
  | cons a as ih =>
    rw [parts, Machine.always_append, ← C.state_step, ih, Machine.Always]
    refine and_congr_left' ?_
    cases C.part s a with
    | none => simp [Machine.Always]
    | some b => simp [Machine.Always]

theorem exists_split {s : S} {as : List A} {pre : List B} {b : B}
    (h : pre ++ [b] <+: C.parts s as) :
    ∃ as₁ a as₂, as = as₁ ++ a :: as₂ ∧ C.parts s as₁ = pre ∧ b ∈ C.part (M.run s as₁) a := by
  induction as using List.reverseRecOn with
  | nil =>
    have hlen := h.length_le
    simp [parts] at hlen
  | append_singleton as a ih =>
    have hold : pre ++ [b] <+: C.parts s as →
        ∃ as₁ a' as₂, as ++ [a] = as₁ ++ a' :: as₂ ∧ C.parts s as₁ = pre ∧
          b ∈ C.part (M.run s as₁) a' := by
      intro hpre
      obtain ⟨as₁, a', as₂, rfl, hrest⟩ := ih hpre
      exact ⟨as₁, a', as₂ ++ [a], by simp, hrest⟩
    rw [parts_concat] at h
    cases hpart : C.part (M.run s as) a with
    | none =>
      rw [hpart, Option.toList_none, List.append_nil] at h
      exact hold h
    | some b' =>
      rw [hpart, Option.toList_some, List.prefix_concat_iff] at h
      rcases h with heq | hpre
      · obtain ⟨rfl, hb⟩ := List.append_inj' heq rfl
        cases hb
        exact ⟨as, a, [], rfl, rfl, hpart⟩
      · exact hold hpre

theorem exists_of_mem_parts {s : S} {as : List A} {b : B} (h : b ∈ C.parts s as) :
    ∃ s', ∃ a ∈ as, b ∈ C.part s' a := by
  obtain ⟨pre, post, hsplit⟩ := List.append_of_mem h
  have hpre : pre ++ [b] <+: C.parts s as := ⟨post, by rw [hsplit, List.append_assoc]; rfl⟩
  obtain ⟨as₁, a, as₂, rfl, -, hb⟩ := C.exists_split hpre
  exact ⟨_, a, List.mem_append_right _ List.mem_cons_self, hb⟩

end Component

end Mitosis.Support
