import Mitosis.Support.CompletionQueue
import Mitosis.Support.SendQueue

/-!
# Send queues without their history

While only signaled work is in flight, a send queue behaves as a completion
queue that keeps the outstanding work and nothing else.
-/

namespace Mitosis.Support

namespace SendQueue

variable {Tag Status : Type*} {quiet : Status → Bool} {q : SendQueue Tag Status}

/-- The completions that wait and the work in flight. -/
def forget (q : SendQueue Tag Status) : CompletionQueue Tag Status where
  completed := q.waiting.filterMap fun c => q.works[c.1]?.map fun w => (w.1, c.2)
  inFlight := q.inFlight.map Prod.fst

/-- All work in flight is signaled. -/
structure Signaled (q : SendQueue Tag Status) : Prop extends q.Valid where
  inFlight : ∀ w ∈ q.inFlight, w.2 = true

theorem signaled_empty : (empty : SendQueue Tag Status).Signaled where
  toValid := valid_empty
  inFlight := by simp [inFlight, empty]

theorem Valid.lt_works (h : q.Valid) {c : ℕ × Status} (hc : c ∈ q.waiting) :
    c.1 < q.works.length :=
  (List.getElem?_eq_some_iff.mp (h.waiting c hc)).1.trans_le h.bounded

theorem Signaled.post (h : q.Signaled) (t : Tag) : (q.post t true).Signaled where
  toValid := h.toValid.post t true
  inFlight w hw := by
    rcases mem_inFlight_post hw with hw | rfl
    · exact h.inFlight w hw
    · rfl

theorem Valid.forget_post (h : q.Valid) (t : Tag) :
    (q.post t true).forget = q.forget.post t := by
  have hflight : (q.post t true).inFlight = q.inFlight ++ [(t, true)] := by
    rw [SendQueue.inFlight, post_works, post_finished, List.drop_append_of_le_length h.bounded]
    rfl
  rw [forget, forget, CompletionQueue.post, hflight, List.map_append]
  congr 1
  refine List.filterMap_congr fun c hc => ?_
  rw [post_works, List.getElem?_append_left (h.lt_works hc)]

theorem Signaled.complete (h : q.Signaled) (quiet : Status → Bool) (status : Status) :
    (q.complete quiet status).Signaled where
  toValid := (completes_complete q status).valid h.toValid
  inFlight w hw := h.inFlight w ((completes_complete q status).mem_inFlight hw)

theorem Signaled.forget_complete (h : q.Signaled) (status : Status) :
    (q.complete quiet status).forget = q.forget.complete status := by
  unfold SendQueue.complete CompletionQueue.complete forget
  cases hnext : q.works[q.finished.length]? with
  | none =>
    rw [SendQueue.inFlight, List.drop_eq_nil_of_le (List.getElem?_eq_none_iff.mp hnext)]
    rfl
  | some w =>
    obtain ⟨t, signaled⟩ := w
    obtain ⟨hlt, hget⟩ := List.getElem?_eq_some_iff.mp hnext
    have hflight : q.inFlight = (t, signaled) :: q.works.drop (q.finished.length + 1) := by
      rw [SendQueue.inFlight, List.drop_eq_getElem_cons hlt, hget]
    obtain rfl : signaled = true := h.inFlight (t, signaled) (by rw [hflight]; exact List.mem_cons_self)
    rw [hflight]
    simp [SendQueue.inFlight, List.filterMap_append, hnext]

theorem Signaled.completeAll (h : q.Signaled) (quiet : Status → Bool) (statuses : List Status) :
    (q.completeAll quiet statuses).Signaled ∧
      (q.completeAll quiet statuses).forget = q.forget.completeAll statuses := by
  induction statuses generalizing q with
  | nil => exact ⟨h, rfl⟩
  | cons status rest ih =>
    obtain ⟨hsignaled, hforget⟩ := ih (h.complete quiet status)
    rw [h.forget_complete] at hforget
    exact ⟨hsignaled, hforget⟩

theorem Signaled.poll (h : q.Signaled) :
    q.poll.1.Signaled ∧ q.poll.1.works = q.works ∧ q.forget.poll.1 = q.poll.1.forget ∧
      q.forget.poll.2.map Prod.snd = q.poll.2.map Prod.snd := by
  cases hwaiting : q.waiting with
  | nil =>
    have hnone : q.forget.completed = [] := by rw [forget, hwaiting]; rfl
    rw [poll_of_nil hwaiting, CompletionQueue.poll_of_nil hnone]
    exact ⟨h, rfl, rfl, rfl⟩
  | cons c rest =>
    have hlt := h.toValid.lt_works (c := c) (by rw [hwaiting]; exact List.mem_cons_self)
    have hsome : q.forget.completed = (q.works[c.1].1, c.2) ::
        rest.filterMap fun c => q.works[c.1]?.map fun w => (w.1, c.2) := by
      rw [forget, hwaiting, List.filterMap_cons_some (by rw [List.getElem?_eq_getElem hlt]; rfl)]
    rw [poll_of_cons hwaiting, CompletionQueue.poll_of_cons hsome]
    refine ⟨⟨⟨h.bounded, fun c' hc' => h.waiting c' ?_, fun c' hc' => ?_⟩, h.inFlight⟩, rfl, rfl,
      rfl⟩
    · rw [hwaiting]
      exact List.mem_cons_of_mem _ hc'
    · rcases List.mem_append.mp hc' with hc' | hc'
      · exact h.polled c' hc'
      · rw [List.mem_singleton.mp hc']
        exact h.waiting c (by rw [hwaiting]; exact List.mem_cons_self)

end SendQueue

end Mitosis.Support
