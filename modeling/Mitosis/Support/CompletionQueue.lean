import Mathlib.Data.List.Basic

/-!
# Completion queues

Work is posted under a tag, completes in posting order with a status chosen by
the device, and is taken off the queue by a poll, oldest first.  What has been
posted and not yet polled is `outstanding`; posting and polling treat it as a
plain queue and completing does not change it, so facts about matching a poll
with the work it answers are facts about one list.
-/

namespace Mitosis.Support

/-- Posted work: the completions waiting to be polled and the work in flight. -/
structure CompletionQueue (Tag Status : Type*) where
  completed : List (Tag × Status)
  inFlight : List Tag
deriving DecidableEq, Repr

namespace CompletionQueue

variable {Tag Status : Type*}

def empty : CompletionQueue Tag Status where
  completed := []
  inFlight := []

def post (q : CompletionQueue Tag Status) (t : Tag) : CompletionQueue Tag Status :=
  { q with inFlight := q.inFlight ++ [t] }

/-- The oldest work in flight completes. -/
def complete (q : CompletionQueue Tag Status) (status : Status) :
    CompletionQueue Tag Status :=
  match q.inFlight with
  | [] => q
  | t :: rest => { completed := q.completed ++ [(t, status)], inFlight := rest }

def completeAll (q : CompletionQueue Tag Status) (statuses : List Status) :
    CompletionQueue Tag Status :=
  statuses.foldl complete q

def poll (q : CompletionQueue Tag Status) :
    CompletionQueue Tag Status × Option (Tag × Status) :=
  match q.completed with
  | [] => (q, none)
  | c :: rest => ({ q with completed := rest }, some c)

/-- The work that was posted and not polled yet, oldest first. -/
def outstanding (q : CompletionQueue Tag Status) : List Tag :=
  q.completed.map Prod.fst ++ q.inFlight

variable {q : CompletionQueue Tag Status} {c : Tag × Status}

@[simp] theorem outstanding_empty :
    (empty : CompletionQueue Tag Status).outstanding = [] := rfl

@[simp] theorem outstanding_post (q : CompletionQueue Tag Status) (t : Tag) :
    (q.post t).outstanding = q.outstanding ++ [t] := by
  simp [outstanding, post]

@[simp] theorem completed_post (q : CompletionQueue Tag Status) (t : Tag) :
    (q.post t).completed = q.completed := rfl

@[simp] theorem outstanding_complete (q : CompletionQueue Tag Status)
    (status : Status) : (q.complete status).outstanding = q.outstanding := by
  unfold complete
  cases h : q.inFlight with
  | nil => rfl
  | cons t rest => simp [outstanding, h]

@[simp] theorem outstanding_completeAll (q : CompletionQueue Tag Status)
    (statuses : List Status) :
    (q.completeAll statuses).outstanding = q.outstanding := by
  induction statuses generalizing q with
  | nil => rfl
  | cons status rest ih => exact (ih _).trans (outstanding_complete q status)

theorem completed_prefix_complete (q : CompletionQueue Tag Status)
    (status : Status) : q.completed <+: (q.complete status).completed := by
  unfold complete
  cases q.inFlight with
  | nil => exact List.prefix_rfl
  | cons t rest => exact List.prefix_append _ _

theorem completed_prefix_completeAll (q : CompletionQueue Tag Status)
    (statuses : List Status) :
    q.completed <+: (q.completeAll statuses).completed := by
  induction statuses generalizing q with
  | nil => exact List.prefix_rfl
  | cons status rest ih => exact (completed_prefix_complete q status).trans (ih _)

theorem mem_completed_completeAll {statuses : List Status}
    (h : c ∈ (q.completeAll statuses).completed) :
    c ∈ q.completed ∨ c.2 ∈ statuses := by
  induction statuses generalizing q with
  | nil => exact Or.inl h
  | cons status rest ih =>
    rcases ih h with hc | hc
    · unfold complete at hc
      cases hflight : q.inFlight with
      | nil =>
        rw [hflight] at hc
        exact Or.inl hc
      | cons t flight =>
        rw [hflight] at hc
        rcases List.mem_append.mp hc with hold | hnew
        · exact Or.inl hold
        · rw [List.mem_singleton.mp hnew]
          exact Or.inr List.mem_cons_self
    · exact Or.inr (List.mem_cons_of_mem _ hc)

theorem inFlight_completeAll (q : CompletionQueue Tag Status) (statuses : List Status) :
    (q.completeAll statuses).inFlight = q.inFlight.drop statuses.length := by
  induction statuses generalizing q with
  | nil => rfl
  | cons status rest ih =>
    have hdrop : (q.complete status).inFlight = q.inFlight.drop 1 := by
      unfold complete
      cases h : q.inFlight with
      | nil => rw [h]; rfl
      | cons t flight => rfl
    calc ((q.complete status).completeAll rest).inFlight
        = (q.complete status).inFlight.drop rest.length := ih _
      _ = (q.inFlight.drop 1).drop rest.length := by rw [hdrop]
      _ = q.inFlight.drop (rest.length + 1) := by rw [List.drop_drop, Nat.add_comm]

theorem poll_of_nil (h : q.completed = []) :
    q.poll = (q, none) := by
  unfold poll
  rw [h]

theorem poll_of_cons {rest : List (Tag × Status)} (h : q.completed = c :: rest) :
    q.poll = ({ q with completed := rest }, some c) := by
  unfold poll
  rw [h]

theorem outstanding_of_poll {q q' : CompletionQueue Tag Status} (h : q.poll = (q', some c)) :
    q.outstanding = c.1 :: q'.outstanding := by
  cases hc : q.completed with
  | nil =>
    rw [poll_of_nil hc] at h
    cases h
  | cons d rest =>
    rw [poll_of_cons hc] at h
    cases h
    simp [outstanding, hc]

theorem exists_poll_complete (h : q.outstanding ≠ []) (status : Status) :
    ∃ q' c, (q.complete status).poll = (q', some c) := by
  have hne : (q.complete status).completed ≠ [] := by
    intro hnil
    cases hflight : q.inFlight with
    | nil => simp_all [outstanding, complete]
    | cons t rest => simp [complete, hflight] at hnil
  obtain ⟨c, rest, hc⟩ := List.exists_cons_of_ne_nil hne
  exact ⟨_, c, poll_of_cons hc⟩

end CompletionQueue

end Mitosis.Support
