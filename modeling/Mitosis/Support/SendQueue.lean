import Mathlib.Data.List.Basic
import Mathlib.Data.List.Infix

/-!
# Send queues with unsignaled work

Work is posted in order and finishes in order.  Only signaled work reports its
end, and any work that ends with another status than the quiet ones.  A
completion names the work it is for by its place in posting order; a poll takes
the oldest completion.  The queue keeps its whole history: everything that was
posted, how the first pieces of it finished, and the completions that were
polled.
-/

namespace Mitosis.Support

variable {k : ℕ}

theorem getElem?_mono {α : Type*} {l l' : List α} (h : l <+: l') {a : α}
    (hk : l[k]? = some a) : l'[k]? = some a := by
  obtain ⟨more, rfl⟩ := h
  rw [List.getElem?_append_left (List.getElem?_eq_some_iff.mp hk).1, hk]

/-- A send queue with its completion queue and history. -/
structure SendQueue (Tag Status : Type*) where
  works : List (Tag × Bool)
  finished : List Status
  waiting : List (ℕ × Status)
  polled : List (ℕ × Status)
deriving DecidableEq, Repr

namespace SendQueue

variable {Tag Status : Type*}

def empty : SendQueue Tag Status where
  works := []
  finished := []
  waiting := []
  polled := []

@[simps]
def post (q : SendQueue Tag Status) (t : Tag) (signaled : Bool) : SendQueue Tag Status where
  works := q.works ++ [(t, signaled)]
  finished := q.finished
  waiting := q.waiting
  polled := q.polled

/-- The work that was posted and has not finished. -/
def inFlight (q : SendQueue Tag Status) : List (Tag × Bool) :=
  q.works.drop q.finished.length

variable {w : Tag × Bool}

theorem mem_inFlight_iff {q : SendQueue Tag Status} :
    w ∈ q.inFlight ↔ ∃ k, q.finished.length ≤ k ∧ q.works[k]? = some w := by
  rw [inFlight, List.mem_iff_getElem?]
  constructor
  · rintro ⟨i, hi⟩
    rw [List.getElem?_drop] at hi
    exact ⟨q.finished.length + i, Nat.le_add_right _ _, hi⟩
  · rintro ⟨k, hle, hk⟩
    refine ⟨k - q.finished.length, ?_⟩
    rwa [List.getElem?_drop, Nat.add_sub_cancel' hle]

/-- The oldest work in flight finishes. -/
def complete (quiet : Status → Bool) (q : SendQueue Tag Status) (status : Status) :
    SendQueue Tag Status :=
  match q.works[q.finished.length]? with
  | none => q
  | some (_, signaled) =>
    { q with
      finished := q.finished ++ [status]
      waiting := if signaled || !quiet status then
          q.waiting ++ [(q.finished.length, status)]
        else q.waiting }

def completeAll (quiet : Status → Bool) (q : SendQueue Tag Status) (statuses : List Status) :
    SendQueue Tag Status :=
  statuses.foldl (complete quiet) q

def poll (q : SendQueue Tag Status) : SendQueue Tag Status × Option (ℕ × Status) :=
  match q.waiting with
  | [] => (q, none)
  | c :: rest => ({ q with waiting := rest, polled := q.polled ++ [c] }, some c)

variable {c : ℕ × Status}

theorem poll_of_nil {q : SendQueue Tag Status} (h : q.waiting = []) : q.poll = (q, none) := by
  unfold poll
  rw [h]

theorem poll_of_cons {q : SendQueue Tag Status} {rest : List (ℕ × Status)}
    (h : q.waiting = c :: rest) :
    q.poll = ({ q with waiting := rest, polled := q.polled ++ [c] }, some c) := by
  unfold poll
  rw [h]

theorem poll_eq_some {q q' : SendQueue Tag Status}
    (h : q.poll = (q', some c)) :
    ∃ rest, q.waiting = c :: rest ∧
      q' = { q with waiting := rest, polled := q.polled ++ [c] } := by
  rcases hwaiting : q.waiting with _ | ⟨first, rest⟩
  · rw [poll_of_nil hwaiting] at h
    cases h
  · rw [poll_of_cons hwaiting] at h
    cases h
    exact ⟨rest, rfl, rfl⟩

/-- The work at this place reports its end with this status. -/
def Reports (quiet : Status → Bool) (q : SendQueue Tag Status) (c : ℕ × Status) : Prop :=
  q.finished[c.1]? = some c.2 ∧
    ((∃ t, q.works[c.1]? = some (t, true)) ∨ quiet c.2 = false)

/-- Work has finished between two states and nothing else has happened. -/
structure Completes (quiet : Status → Bool) (q q' : SendQueue Tag Status) : Prop where
  works : q'.works = q.works
  polled : q'.polled = q.polled
  finished : q.finished <+: q'.finished
  bounded : q'.finished.length ≤ max q.finished.length q.works.length
  waiting : ∃ new, q'.waiting = q.waiting ++ new ∧
    ∀ c ∈ new, q.finished.length ≤ c.1 ∧ Reports quiet q' c

variable {quiet : Status → Bool} {q q' q'' : SendQueue Tag Status}

theorem Completes.refl (q : SendQueue Tag Status) : Completes quiet q q where
  works := rfl
  polled := rfl
  finished := List.prefix_rfl
  bounded := le_max_left _ _
  waiting := ⟨[], by simp, by simp⟩

theorem Reports.mono (h : Reports quiet q c) (hworks : q'.works = q.works)
    (hfinished : q.finished <+: q'.finished) : Reports quiet q' c := by
  obtain ⟨hstatus, hwhy⟩ := h
  rw [Reports, hworks]
  exact ⟨getElem?_mono hfinished hstatus, hwhy⟩

theorem Completes.trans (h : Completes quiet q q') (h' : Completes quiet q' q'') :
    Completes quiet q q'' where
  works := h'.works.trans h.works
  polled := h'.polled.trans h.polled
  finished := h.finished.trans h'.finished
  bounded := by
    have hb := h.bounded
    have hb' := h'.bounded
    rw [h.works] at hb'
    omega
  waiting := by
    obtain ⟨new, hnew, hreports⟩ := h.waiting
    obtain ⟨new', hnew', hreports'⟩ := h'.waiting
    refine ⟨new ++ new', by rw [hnew', hnew, List.append_assoc], ?_⟩
    intro c hc
    rcases List.mem_append.mp hc with hc | hc
    · obtain ⟨hle, hr⟩ := hreports c hc
      exact ⟨hle, hr.mono h'.works h'.finished⟩
    · obtain ⟨hle, hr⟩ := hreports' c hc
      exact ⟨h.finished.length_le.trans hle, hr⟩

theorem completes_complete (q : SendQueue Tag Status) (status : Status) :
    Completes quiet q (q.complete quiet status) := by
  unfold complete
  cases hw : q.works[q.finished.length]? with
  | none => exact Completes.refl q
  | some work =>
    obtain ⟨t, signaled⟩ := work
    have hlt := (List.getElem?_eq_some_iff.mp hw).1
    constructor
    case works => rfl
    case polled => rfl
    case finished => exact List.prefix_append _ _
    case bounded =>
      simp only [List.length_append, List.length_singleton]
      omega
    case waiting =>
      by_cases hreport : (signaled || !quiet status) = true
      · refine ⟨[(q.finished.length, status)], by simp [hreport], ?_⟩
        intro c hc
        rw [List.mem_singleton.mp hc]
        refine ⟨le_rfl, by simp, ?_⟩
        rcases Bool.or_eq_true_iff.mp hreport with hsignaled | hloud
        · exact Or.inl ⟨t, by simp [hw, hsignaled]⟩
        · exact Or.inr (by simpa using hloud)
      · exact ⟨[], by simp [hreport], by simp⟩

theorem completes_completeAll (q : SendQueue Tag Status) (statuses : List Status) :
    Completes quiet q (q.completeAll quiet statuses) := by
  induction statuses generalizing q with
  | nil => exact Completes.refl q
  | cons status rest ih => exact (completes_complete q status).trans (ih _)

/-! ## Work in flight -/

theorem mem_inFlight_post {t : Tag} {signaled : Bool}
    (h : w ∈ (q.post t signaled).inFlight) : w ∈ q.inFlight ∨ w = (t, signaled) := by
  rw [inFlight, post_works, post_finished, List.drop_append] at h
  rcases List.mem_append.mp h with h | h
  · exact Or.inl h
  · exact Or.inr (List.mem_singleton.mp (List.mem_of_mem_drop h))

theorem Completes.mem_inFlight (h : Completes quiet q q')
    (hw : w ∈ q'.inFlight) : w ∈ q.inFlight := by
  rw [mem_inFlight_iff, h.works] at hw
  obtain ⟨k, hle, hk⟩ := hw
  exact mem_inFlight_iff.mpr ⟨k, h.finished.length_le.trans hle, hk⟩

/-! ## What work in flight reports -/

/-- Whether the work in flight is signaled, oldest first. -/
def signals (q : SendQueue Tag Status) : List Bool := q.inFlight.map Prod.snd

/-- The completions that work in flight brings if it ends with these statuses; the first
piece of it has this place. -/
def reportsFrom (quiet : Status → Bool) : ℕ → List Bool → List Status → List (ℕ × Status)
  | place, signaled :: signals, status :: statuses =>
    (if signaled || !quiet status then [(place, status)] else []) ++
      reportsFrom quiet (place + 1) signals statuses
  | _, _, _ => []

/-- The status of the first of them. -/
def firstReport (quiet : Status → Bool) : List Bool → List Status → Option Status
  | signaled :: signals, status :: statuses =>
    if signaled || !quiet status then some status else firstReport quiet signals statuses
  | _, _ => none

@[simp] theorem reportsFrom_nil_left (place : ℕ) (statuses : List Status) :
    reportsFrom quiet place [] statuses = [] := by
  cases statuses <;> rfl

@[simp] theorem reportsFrom_nil_right (place : ℕ) (signals : List Bool) :
    reportsFrom quiet place signals ([] : List Status) = [] := by
  cases signals <;> rfl

theorem head?_reportsFrom (place : ℕ) (signals : List Bool) (statuses : List Status) :
    (reportsFrom quiet place signals statuses).head?.map Prod.snd =
      firstReport quiet signals statuses := by
  induction signals generalizing place statuses with
  | nil =>
    rw [reportsFrom_nil_left]
    cases statuses <;> rfl
  | cons signaled signals ih =>
    cases statuses with
    | nil => rfl
    | cons status statuses =>
      unfold reportsFrom firstReport
      split
      · rfl
      · exact ih _ _

theorem reportsFrom_append (place : ℕ) (earlier later : List Bool) (statuses : List Status) :
    reportsFrom quiet place (earlier ++ later) statuses =
      reportsFrom quiet place earlier statuses ++
        reportsFrom quiet (place + earlier.length) later (statuses.drop earlier.length) := by
  induction earlier generalizing place statuses with
  | nil => simp
  | cons signaled earlier ih =>
    cases statuses with
    | nil => simp
    | cons status statuses =>
      simp only [List.cons_append, reportsFrom, ih, List.append_assoc, List.length_cons,
        List.drop_succ_cons, Nat.add_assoc, Nat.add_comm 1]

theorem reportsFrom_lt {place : ℕ} {signals : List Bool} {statuses : List Status}
    (h : c ∈ reportsFrom quiet place signals statuses) :
    c.1 < place + signals.length := by
  induction signals generalizing place statuses with
  | nil => simp at h
  | cons signaled signals ih =>
    cases statuses with
    | nil => simp at h
    | cons status statuses =>
      rcases List.mem_append.mp h with hfirst | hrest
      · split at hfirst
        · rw [List.mem_singleton.mp hfirst, List.length_cons]
          omega
        · cases hfirst
      · have := ih hrest
        rw [List.length_cons]
        omega

theorem signals_post (h : q.finished.length ≤ q.works.length) (t : Tag) (signaled : Bool) :
    (q.post t signaled).signals = q.signals ++ [signaled] := by
  rw [signals, inFlight, post_works, post_finished, List.drop_append_of_le_length h,
    List.map_append]
  rfl

theorem length_signals (q : SendQueue Tag Status) :
    q.signals.length = q.works.length - q.finished.length := by
  rw [signals, List.length_map, inFlight, List.length_drop]

theorem complete_spec (quiet : Status → Bool) (q : SendQueue Tag Status) (status : Status) :
    (q.complete quiet status).signals = q.signals.drop 1 ∧
      (q.complete quiet status).waiting =
        q.waiting ++ reportsFrom quiet q.finished.length q.signals [status] ∧
      (q.complete quiet status).finished.length =
        q.finished.length + min 1 q.signals.length := by
  unfold complete
  cases hw : q.works[q.finished.length]? with
  | none =>
    have hnone : q.signals = [] := by
      rw [signals, inFlight, List.drop_eq_nil_of_le (List.getElem?_eq_none_iff.mp hw)]
      rfl
    simp [hnone]
  | some work =>
    obtain ⟨t, signaled⟩ := work
    obtain ⟨hlt, hget⟩ := List.getElem?_eq_some_iff.mp hw
    have hcons : q.inFlight = (t, signaled) :: q.works.drop (q.finished.length + 1) := by
      rw [inFlight, List.drop_eq_getElem_cons hlt, hget]
    refine ⟨?_, ?_, ?_⟩
    · rw [signals, signals, hcons, inFlight]
      simp
    · rw [signals, hcons]
      simp only [List.map_cons, reportsFrom, reportsFrom_nil_right, List.append_nil]
      split <;> simp
    · rw [signals, hcons]
      simp

theorem completeAll_spec (q : SendQueue Tag Status) (statuses : List Status) :
    (q.completeAll quiet statuses).signals = q.signals.drop statuses.length ∧
      (q.completeAll quiet statuses).waiting =
        q.waiting ++ reportsFrom quiet q.finished.length q.signals statuses ∧
      (q.completeAll quiet statuses).finished.length =
        q.finished.length + min statuses.length q.signals.length := by
  induction statuses generalizing q with
  | nil => simp [completeAll]
  | cons status statuses ih =>
    obtain ⟨hsignals, hwaiting, hfinished⟩ := complete_spec quiet q status
    obtain ⟨hsignals', hwaiting', hfinished'⟩ := ih (q.complete quiet status)
    have hstep : q.completeAll quiet (status :: statuses) =
        (q.complete quiet status).completeAll quiet statuses := rfl
    rw [hstep, hsignals', hwaiting', hfinished', hsignals, hwaiting, hfinished]
    cases q.signals with
    | nil => simp
    | cons signaled signals => simp [reportsFrom, Nat.add_assoc, Nat.add_comm 1]

/-! ## Valid queues -/

/-- Only posted work has finished, and the completions report its status. -/
structure Valid (q : SendQueue Tag Status) : Prop where
  bounded : q.finished.length ≤ q.works.length
  waiting : ∀ c ∈ q.waiting, q.finished[c.1]? = some c.2
  polled : ∀ c ∈ q.polled, q.finished[c.1]? = some c.2

theorem valid_empty : Valid (empty : SendQueue Tag Status) where
  bounded := le_rfl
  waiting := by simp [empty]
  polled := by simp [empty]

theorem Valid.post (h : Valid q) (t : Tag) (signaled : Bool) : Valid (q.post t signaled) where
  bounded := by
    rw [post_finished, post_works, List.length_append]
    exact h.bounded.trans (Nat.le_add_right _ _)
  waiting := h.waiting
  polled := h.polled

theorem Completes.valid (h : Completes quiet q q') (hq : Valid q) : Valid q' where
  bounded := by
    rw [h.works]
    exact h.bounded.trans (max_le hq.bounded le_rfl)
  waiting := by
    obtain ⟨new, hnew, hreports⟩ := h.waiting
    intro c hc
    rw [hnew] at hc
    rcases List.mem_append.mp hc with hold | hc
    · exact getElem?_mono h.finished (hq.waiting c hold)
    · exact (hreports c hc).2.1
  polled c hc := by
    rw [h.polled] at hc
    exact getElem?_mono h.finished (hq.polled c hc)

/-! ## The statuses that work finishes with -/

/-- The work that has finished since has statuses with `P`. -/
def FinishesWith (P : Status → Prop) (q q' : SendQueue Tag Status) : Prop :=
  ∃ new, q'.finished = q.finished ++ new ∧ ∀ status ∈ new, P status

variable {P : Status → Prop}

variable {status : Status}

theorem FinishesWith.refl (q : SendQueue Tag Status) : FinishesWith P q q :=
  ⟨[], by simp, by simp⟩

theorem finishesWith_of_finished_eq (h : q'.finished = q.finished) : FinishesWith P q q' :=
  ⟨[], by simp [h], by simp⟩

theorem FinishesWith.trans (h : FinishesWith P q q') (h' : FinishesWith P q' q'') :
    FinishesWith P q q'' := by
  obtain ⟨new, hnew, hP⟩ := h
  obtain ⟨new', hnew', hP'⟩ := h'
  refine ⟨new ++ new', by rw [hnew', hnew, List.append_assoc], ?_⟩
  intro status hstatus
  rcases List.mem_append.mp hstatus with hstatus | hstatus
  · exact hP status hstatus
  · exact hP' status hstatus

theorem finishesWith_complete (q : SendQueue Tag Status) (h : P status) :
    FinishesWith P q (q.complete quiet status) := by
  unfold complete
  cases q.works[q.finished.length]? with
  | none => exact FinishesWith.refl q
  | some work => exact ⟨[status], rfl, by simpa using h⟩

theorem finishesWith_completeAll (q : SendQueue Tag Status) {statuses : List Status}
    (h : ∀ status ∈ statuses, P status) :
    FinishesWith P q (q.completeAll quiet statuses) := by
  induction statuses generalizing q with
  | nil => exact FinishesWith.refl q
  | cons status rest ih =>
    obtain ⟨hstatus, hrest⟩ := List.forall_mem_cons.mp h
    exact (finishesWith_complete q hstatus).trans (ih _ hrest)

theorem FinishesWith.getElem?_eq (h : FinishesWith (· = status) q q')
    (hle : q.finished.length ≤ k) (hlt : k < q'.finished.length) :
    q'.finished[k]? = some status := by
  obtain ⟨new, hnew, hP⟩ := h
  rw [hnew, List.length_append] at hlt
  rw [hnew, List.getElem?_append_right hle]
  have hk : k - q.finished.length < new.length := by omega
  rw [List.getElem?_eq_getElem hk, hP _ (List.getElem_mem hk)]

/-- If signaled work is in flight and nothing is waiting, enough quiet ends bring
a completion, at the latest that of this work. -/
theorem exists_completeAll_waiting (hquiet : quiet status = true) {t : Tag}
    (hle : q.finished.length ≤ k) (hk : q.works[k]? = some (t, true))
    (hwaiting : q.waiting = []) :
    ∃ n i, (q.completeAll quiet (List.replicate n status)).waiting = [(i, status)] ∧
      (q.completeAll quiet (List.replicate n status)).finished.length ≤ k + 1 := by
  induction hd : k - q.finished.length generalizing q with
  | zero =>
    obtain rfl : k = q.finished.length := by omega
    refine ⟨1, q.finished.length, ?_, ?_⟩
    · simp [completeAll, complete, hk, hwaiting]
    · simp [completeAll, complete, hk]
  | succ d ih =>
    have hlt : q.finished.length < q.works.length := by
      have := (List.getElem?_eq_some_iff.mp hk).1
      omega
    obtain ⟨⟨t', signaled⟩, hwork⟩ : ∃ w, q.works[q.finished.length]? = some w :=
      ⟨_, List.getElem?_eq_getElem hlt⟩
    cases signaled with
    | true =>
      refine ⟨1, q.finished.length, ?_, ?_⟩
      · simp [completeAll, complete, hwork, hwaiting]
      · simp [completeAll, complete, hwork]
        omega
    | false =>
      -- this one ends without a completion
      obtain ⟨n, i, hi, hbound⟩ := ih (q := q.complete quiet status)
        (by simp [complete, hwork]; omega) (by simpa [complete, hwork] using hk)
        (by simp [complete, hwork, hwaiting, hquiet]) (by simp [complete, hwork]; omega)
      exact ⟨n + 1, i, hi, hbound⟩

/-! ## Which completions there are -/

/-- The places of the signaled work. -/
def places (works : List (Tag × Bool)) : List ℕ :=
  works.zipIdx.filterMap fun entry => if entry.1.2 then some entry.2 else none

@[simp] theorem places_nil : places ([] : List (Tag × Bool)) = [] := rfl

theorem places_concat (works : List (Tag × Bool)) (t : Tag) (signaled : Bool) :
    places (works ++ [(t, signaled)]) =
      places works ++ if signaled then [works.length] else [] := by
  rw [places, List.zipIdx_append, List.filterMap_append]
  cases signaled <;> simp [places]

theorem length_places (works : List (Tag × Bool)) :
    (places works).length = works.countP Prod.snd := by
  induction works using List.reverseRecOn with
  | nil => rfl
  | append_singleton works work ih =>
    obtain ⟨t, signaled⟩ := work
    rw [places_concat, List.length_append, List.countP_append, ih]
    cases signaled <;> rfl

theorem places_isPrefix {works works' : List (Tag × Bool)} (h : works <+: works') :
    places works <+: places works' := by
  obtain ⟨more, rfl⟩ := h
  induction more using List.reverseRecOn with
  | nil => rw [List.append_nil]
  | append_singleton more work ih =>
    obtain ⟨t, signaled⟩ := work
    rw [← List.append_assoc, places_concat]
    exact ih.trans (List.prefix_append _ _)

/-- The completions so far, polled or not, are those of the signaled work that has
finished, in its order. -/
structure Reported (q : SendQueue Tag Status) : Prop where
  bounded : q.finished.length ≤ q.works.length
  reports : q.polled.map Prod.fst ++ q.waiting.map Prod.fst =
    places (q.works.take q.finished.length)

theorem reported_empty : Reported (empty : SendQueue Tag Status) where
  bounded := le_rfl
  reports := rfl

theorem Reported.post (h : Reported q) (t : Tag) (signaled : Bool) :
    Reported (q.post t signaled) where
  bounded := by
    rw [post_finished, post_works, List.length_append]
    exact h.bounded.trans (Nat.le_add_right _ _)
  reports := by
    rw [post_finished, post_works, List.take_append_of_le_length h.bounded]
    exact h.reports

theorem Reported.complete (hquiet : ∀ status, quiet status = true) (h : Reported q)
    (status : Status) : Reported (q.complete quiet status) := by
  unfold SendQueue.complete
  cases hw : q.works[q.finished.length]? with
  | none => exact h
  | some work =>
    obtain ⟨t, signaled⟩ := work
    obtain ⟨hlt, hwork⟩ := List.getElem?_eq_some_iff.mp hw
    constructor
    case bounded =>
      rw [List.length_append, List.length_singleton]
      exact hlt
    case reports =>
      rw [List.length_append, List.length_singleton, List.take_succ_eq_append_getElem hlt, hwork,
        places_concat, ← h.reports, List.length_take_of_le h.bounded]
      cases signaled <;> simp [hquiet]

theorem Reported.completeAll (hquiet : ∀ status, quiet status = true) (h : Reported q)
    (statuses : List Status) : Reported (q.completeAll quiet statuses) := by
  induction statuses generalizing q with
  | nil => exact h
  | cons status rest ih => exact ih (h.complete hquiet status)

theorem Reported.poll (h : Reported q) (hpoll : q.poll = (q', some c)) :
    Reported q' := by
  obtain ⟨rest, hwaiting, rfl⟩ := poll_eq_some hpoll
  refine ⟨h.bounded, ?_⟩
  rw [← h.reports, hwaiting, List.map_append, List.append_assoc]
  rfl

theorem Reported.polled_isPrefix (h : Reported q) :
    q.polled.map Prod.fst <+: places q.works := by
  have hplaces := places_isPrefix (List.take_prefix q.finished.length q.works)
  rw [← h.reports] at hplaces
  exact (List.prefix_append _ _).trans hplaces

/-- If less was polled than signaled, a completion is waiting or signaled work in flight. -/
theorem Reported.unpolled (h : Reported q) (hlt : q.polled.length < q.works.countP Prod.snd) :
    q.waiting ≠ [] ∨ ∃ work ∈ q.inFlight, work.2 = true := by
  by_cases hwaiting : q.waiting = []
  · right
    have hreports := congrArg List.length h.reports
    rw [hwaiting, List.map_nil, List.append_nil, List.length_map, length_places] at hreports
    rw [← List.take_append_drop q.finished.length q.works, List.countP_append, ← hreports] at hlt
    obtain ⟨work, hmem, hwork⟩ := List.countP_pos_iff.mp (Nat.lt_add_right_iff_pos.mp hlt)
    exact ⟨work, hmem, hwork⟩
  · exact Or.inl hwaiting

theorem places_of_forall {works : List (Tag × Bool)} (h : ∀ work ∈ works, work.2 = true) :
    places works = List.range works.length := by
  induction works using List.reverseRecOn with
  | nil => rfl
  | append_singleton works work ih =>
    obtain ⟨t, signaled⟩ := work
    obtain rfl : signaled = true := h (t, signaled) (by simp)
    rw [places_concat, ih fun work hwork => h work (List.mem_append_left _ hwork), if_pos rfl,
      List.length_append, List.length_singleton, List.range_succ]

/-! ## Slots

Work takes a slot of the queue until a completion for it or for later work is
polled. -/

/-- The number of slots that are taken. -/
def unreclaimed (q : SendQueue Tag Status) : ℕ :=
  (List.range q.works.length).countP fun i => q.polled.all fun c => c.1 < i

theorem countP_range_le (b n : ℕ) : (List.range n).countP (b ≤ ·) = n - b := by
  induction n with
  | zero => simp
  | succ n ih =>
    rw [List.range_succ, List.countP_append, ih, List.countP_singleton]
    by_cases hb : b ≤ n
    · simp [hb]
      omega
    · simp [hb]
      omega

theorem unreclaimed_le_length (q : SendQueue Tag Status) : q.unreclaimed ≤ q.works.length := by
  have h := List.countP_le_length (p := fun i => q.polled.all fun c => decide (c.1 < i))
    (l := List.range q.works.length)
  rwa [List.length_range] at h

/-- A polled completion frees the slots up to its work. -/
theorem unreclaimed_le (h : c ∈ q.polled) :
    q.unreclaimed ≤ q.works.length - (c.1 + 1) := by
  rw [← countP_range_le]
  apply List.countP_mono_left
  intro i _ hi
  have hlt := List.all_eq_true.mp hi c h
  simp only [decide_eq_true_eq] at hlt ⊢
  exact hlt

theorem le_unreclaimed {b : ℕ} (h : ∀ c ∈ q.polled, c.1 < b) :
    q.works.length - b ≤ q.unreclaimed := by
  rw [← countP_range_le]
  apply List.countP_mono_left
  intro i _ hi
  rw [List.all_eq_true]
  intro c hc
  have hlt := h c hc
  simp only [decide_eq_true_eq] at hi ⊢
  omega

end SendQueue

end Mitosis.Support
