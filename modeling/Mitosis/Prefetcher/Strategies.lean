import Mitosis.RemoteMapping.Iter

/-!
# The strategies of the prefetcher

A strategy takes page-table entries from an iterator and keeps those that need
a prefetch.  `StepPrefetcher`, which the fault handler uses, goes on until it
has `n` of them or the iterator ends.  `ConstPrefetcher` looks at `n` entries
and no further.
-/

namespace Mitosis.Prefetcher

open Mitosis.RemoteMapping

/-- A page that is neither local nor on its way. -/
def needPrefetch (e : PageEntry) : Bool := PhysAddr.bottomBit e.addr == false

/-- Add an entry to at most `n` requests; without capacity it fails silently. -/
def PrefetchRequests.add (n : ℕ) (reqs : List PageEntry) (v : PageEntry) :
    List PageEntry :=
  if reqs.length < n then reqs ++ [v] else reqs

namespace StepPrefetcher

/-- The loop of `generate_request`; it answers `none` if it has not ended
within the bound. -/
def loop (h : Heap) (n : ℕ) :
    ℕ → ℕ → RemotePageTableIter → List PageEntry → Option (List PageEntry)
  | 0, _, _, _ => none
  | bound + 1, count, src, reqs =>
    if count < n then
      match src.next h with
      | none => none
      | some (src', some v) =>
        if needPrefetch v then
          loop h n bound (count + 1) src' (PrefetchRequests.add n reqs v)
        else loop h n bound count src' reqs
      | some (_, none) => some reqs
    else some reqs

/-- A table has at most `512 ^ 4` slots, which bounds the loop. -/
def generateRequest (h : Heap) (n : ℕ) (src : RemotePageTableIter) :
    Option (List PageEntry) :=
  loop h n (512 ^ 4 + 1) 0 src []

end StepPrefetcher

namespace ConstPrefetcher

/-- The loop of `generate_request`: `k` rounds, ended early by the iterator. -/
def loop (h : Heap) (n : ℕ) :
    ℕ → RemotePageTableIter → List PageEntry → Option (List PageEntry)
  | 0, _, reqs => some reqs
  | k + 1, src, reqs =>
    match src.next h with
    | none => none
    | some (src', some v) =>
      if needPrefetch v then loop h n k src' (PrefetchRequests.add n reqs v)
      else loop h n k src' reqs
    | some (_, none) => some reqs

def generateRequest (h : Heap) (n : ℕ) (src : RemotePageTableIter) :
    Option (List PageEntry) :=
  loop h n n src []

end ConstPrefetcher

/-- The implementations of the trait `Prefetch`, with their sizes. -/
inductive Strategy where
  | step (n : ℕ)
  | const (n : ℕ)
deriving DecidableEq

def Strategy.generateRequest (h : Heap) (src : RemotePageTableIter) :
    Strategy → Option (List PageEntry)
  | step n => StepPrefetcher.generateRequest h n src
  | const n => ConstPrefetcher.generateRequest h n src

/-- What a strategy takes of the entries that are left. -/
def Strategy.select (es : List PageEntry) : Strategy → List PageEntry
  | step n => (es.filter needPrefetch).take n
  | const n => (es.take n).filter needPrefetch

variable {h : Heap} {root : Ptr} {n : ℕ}

variable {reqs : List PageEntry} {src : RemotePageTableIter} {es : List PageEntry}

theorem PrefetchRequests.add_of_lt (hlt : reqs.length < n)
    (v : PageEntry) : PrefetchRequests.add n reqs v = reqs ++ [v] :=
  if_pos hlt

theorem StepPrefetcher.loop_eq
    (hes : Yields h src es) {bound : ℕ} (hbound : es.length < bound) (hle : reqs.length ≤ n) :
    StepPrefetcher.loop h n bound reqs.length src reqs =
      some (reqs ++ (es.filter needPrefetch).take (n - reqs.length)) := by
  induction hes generalizing bound reqs with
  | done hnext =>
    obtain ⟨bound, rfl⟩ := Nat.exists_eq_add_of_lt hbound
    rw [StepPrefetcher.loop, hnext]
    split
    · simp
    · simp
  | @step src src' e es hnext _ ih =>
    obtain ⟨bound, rfl⟩ := Nat.exists_eq_add_of_lt hbound
    have hrest : es.length < es.length + 1 + bound := by omega
    rw [List.length_cons, StepPrefetcher.loop, hnext]
    by_cases hlt : reqs.length < n
    · rw [if_pos hlt]
      dsimp only
      by_cases hneed : needPrefetch e = true
      · have hadd := PrefetchRequests.add_of_lt hlt e
        have hlen : (reqs ++ [e]).length = reqs.length + 1 := by simp
        rw [if_pos hneed, hadd, ← hlen, ih hrest (by omega), List.filter_cons_of_pos hneed,
          hlen, List.append_assoc, List.singleton_append, ← List.take_succ_cons]
        congr 3
        omega
      · rw [if_neg hneed, ih hrest hle, List.filter_cons_of_neg hneed]
    · rw [if_neg hlt, Nat.sub_eq_zero_of_le (Nat.le_of_not_lt hlt)]
      simp

theorem ConstPrefetcher.loop_eq (hes : Yields h src es) {k : ℕ} (hle : reqs.length + k ≤ n) :
    ConstPrefetcher.loop h n k src reqs = some (reqs ++ (es.take k).filter needPrefetch) := by
  induction hes generalizing k reqs with
  | done hnext =>
    cases k with
    | zero => simp [ConstPrefetcher.loop]
    | succ k =>
      rw [ConstPrefetcher.loop, hnext]
      simp
  | @step src src' e es hnext _ ih =>
    cases k with
    | zero => simp [ConstPrefetcher.loop]
    | succ k =>
      rw [ConstPrefetcher.loop, hnext, List.take_succ_cons]
      dsimp only
      by_cases hneed : needPrefetch e = true
      · have hlen : (reqs ++ [e]).length = reqs.length + 1 := by simp
        rw [if_pos hneed, PrefetchRequests.add_of_lt (by omega), ih (by omega),
          List.filter_cons_of_pos hneed, List.append_assoc, List.singleton_append]
      · rw [if_neg hneed, ih (by omega), List.filter_cons_of_neg hneed]

theorem exists_related {α β : Type} {R : α → β → Prop} {l : List α} {l' : List β}
    (h : List.Forall₂ R l l') {a : α} (ha : a ∈ l) : ∃ b ∈ l', R a b := by
  induction h with
  | nil => cases ha
  | @cons b b' l l' hb _ ih =>
    rcases List.mem_cons.mp ha with rfl | ha
    · exact ⟨b', List.mem_cons_self, hb⟩
    · obtain ⟨c, hc, hR⟩ := ih ha
      exact ⟨c, List.mem_cons_of_mem _ hc, hR⟩

theorem length_le_of_enumerates {start : ℕ} {slots : List ℕ}
    (hslots : Support.Enumerates (Present h root 4) start slots) :
    slots.length ≤ 512 ^ 4 := by
  have hnodup : slots.Nodup := hslots.sorted.imp fun hlt => hlt.ne
  have hsub : slots.toFinset ⊆ Finset.range (512 ^ 4) := by
    intro slot hslot
    obtain ⟨-, w, hw⟩ := (hslots.mem slot).mp (List.mem_toFinset.mp hslot)
    exact Finset.mem_range.mpr (nodeAt_lt hw)
  calc slots.length = slots.toFinset.card := (List.toFinset_card_of_nodup hnodup).symm
    _ ≤ (Finset.range (512 ^ 4)).card := Finset.card_le_card hsub
    _ = 512 ^ 4 := Finset.card_range _

/-- Behind a slot of a level-one node, the step strategy asks for the first `n`
later slots, in address order, that need a prefetch. -/
theorem StepPrefetcher.generateRequest_eq (hw : WellFormed h root) {start : ℕ}
    (hpos : Position h root src start) :
    ∃ slots es, Support.Enumerates (Present h root 4) start slots ∧
      List.Forall₂ (fun slot e => entryAt h root slot = some e) slots es ∧
      StepPrefetcher.generateRequest h n src =
        some ((es.filter needPrefetch).take n) := by
  obtain ⟨slots, es, hslots, hyields, hentries⟩ := yields_of_position hw hpos
  refine ⟨slots, es, hslots, hentries, ?_⟩
  have hlen : es.length < 512 ^ 4 + 1 := by
    rw [← hentries.length_eq]
    exact Nat.lt_succ_of_le (length_le_of_enumerates hslots)
  have hnil : ([] : List PageEntry).length ≤ n := Nat.zero_le n
  exact StepPrefetcher.loop_eq hyields hlen hnil

theorem Strategy.generateRequest_eq (s : Strategy) (hes : Yields h src es)
    (hlen : es.length ≤ 512 ^ 4) :
    s.generateRequest h src = some (s.select es) := by
  cases s with
  | step n =>
    have hnil : ([] : List PageEntry).length ≤ n := Nat.zero_le n
    exact StepPrefetcher.loop_eq hes (Nat.lt_succ_of_le hlen) hnil
  | const n => exact ConstPrefetcher.loop_eq hes (Nat.zero_add n).le

theorem Strategy.select_sublist (s : Strategy) (es : List PageEntry) :
    (s.select es).Sublist es := by
  cases s with
  | step n => exact (List.take_sublist _ _).trans List.filter_sublist
  | const n => exact List.filter_sublist.trans (List.take_sublist _ _)

theorem Strategy.needPrefetch_of_mem (s : Strategy) {e : PageEntry}
    (he : e ∈ s.select es) : needPrefetch e = true := by
  cases s with
  | step n => exact (List.mem_filter.mp (List.mem_of_mem_take he)).2
  | const n => exact (List.mem_filter.mp he).2

end Mitosis.Prefetcher
