import Mitosis.Fetch.Waits

/-!
# How a wait ends, by its schedule

A wait takes the oldest completion it finds, whichever READ it is for.  What that is depends
on three things only: the completion that is waiting already, if there is one, the work in
flight before the own READ, which ends in its order and reports its end if it is signaled or
fails, and the schedule, that is what arrives, fails and has passed of the time at each poll.

The conditions below are stated on these three.  They are met in the state before the own
READ is posted, and a wait ends as they say.
-/

namespace Mitosis.Fetch

open Mitosis.OsNetwork
open Mitosis.PageFault (expiry)
open Mitosis.RemotePaging
open Mitosis.Support

/-! ## Schedules -/

/-- The status of the oldest completion on a queue pair. -/
def oldest (q : CoreQueue) : Option WCStatus := q.waiting.head?.map Prod.snd

/-- The status of the completion that a poll finds. -/
def foundAt (waiting : Option WCStatus) (signals : List Bool) (e : CqEvent) : Option WCStatus :=
  waiting.or (SendQueue.firstReport quiet signals e.arrivals)

/-- The wait finds no completion before a poll fails or the time is over. -/
def GetsNothing (waiting : Option WCStatus) (signals : List Bool) :
    List (CqEvent × ℤ) → Prop
  | [] => waiting = none
  | (e, passed) :: polls =>
    e.pollError ≠ none ∨ foundAt waiting signals e = none ∧
      (timeoutUsec ≤ passed ∨ GetsNothing none (signals.drop e.arrivals.length) polls)

/-- The wait finds the completion of its own READ: none is waiting, the work before the own
READ ends in silence, and the READ ends before a poll fails and before the time is over. -/
def GetsOwn (waiting : Option WCStatus) (earlier : List Bool) : List (CqEvent × ℤ) → Prop
  | [] => False
  | (e, passed) :: polls =>
    e.pollError = none ∧ foundAt waiting earlier e = none ∧
      (earlier.length < e.arrivals.length ∨
        passed < timeoutUsec ∧ GetsOwn none (earlier.drop e.arrivals.length) polls)

/-- The wait fails while its own READ is outstanding: a poll fails, the time is over, or
the completion of another READ is found and not accepted. -/
def GivesUp (accepts : WCStatus → Bool) (waiting : Option WCStatus) (earlier : List Bool) :
    List (CqEvent × ℤ) → Prop
  | [] => ∀ status ∈ waiting, accepts status = false
  | (e, passed) :: polls =>
    e.arrivals.length ≤ earlier.length ∧
      (e.pollError ≠ none ∨
        match foundAt waiting earlier e with
        | some status => accepts status = false
        | none =>
          timeoutUsec ≤ passed ∨ GivesUp accepts none (earlier.drop e.arrivals.length) polls)

instance decidableGetsOwn (waiting : Option WCStatus) (earlier : List Bool)
    (polls : List (CqEvent × ℤ)) : Decidable (GetsOwn waiting earlier polls) :=
  match polls with
  | [] => isFalse id
  | (e, _) :: polls =>
    have := decidableGetsOwn none (earlier.drop e.arrivals.length) polls
    inferInstanceAs (Decidable (_ ∧ _ ∧ (_ ∨ _ ∧ _)))

instance decidableGivesUp (accepts : WCStatus → Bool) (waiting : Option WCStatus)
    (earlier : List Bool) (polls : List (CqEvent × ℤ)) :
    Decidable (GivesUp accepts waiting earlier polls) :=
  match polls with
  | [] => inferInstanceAs (Decidable (∀ status ∈ waiting, accepts status = false))
  | (e, passed) :: polls =>
    have := decidableGivesUp accepts none (earlier.drop e.arrivals.length) polls
    have : Decidable (match foundAt waiting earlier e with
        | some status => accepts status = false
        | none => timeoutUsec ≤ passed ∨
            GivesUp accepts none (earlier.drop e.arrivals.length) polls) := by
      cases foundAt waiting earlier e <;> infer_instance
    inferInstanceAs (Decidable (_ ∧ (_ ∨ _)))

/-! ## One poll -/

/-- A poll that takes the oldest completion, and is content with it if its status is
accepted. -/
structure PollsOldest {ε : Type} (accepts : WCStatus → Bool)
    (poll : CoreQueue → CqEvent → CoreQueue × Poll (ℕ × WCStatus) ε) : Prop where
  failed : ∀ {q e}, e.pollError ≠ none → ∃ err, poll q e = (arrived q e, .error err)
  nothing : ∀ {q e}, e.pollError = none → (arrived q e).waiting = [] →
    poll q e = (arrived q e, .ok .notReady)
  accepted : ∀ {q e wc rest}, e.pollError = none → (arrived q e).waiting = wc :: rest →
    accepts wc.2 = true → poll q e = (taken (arrived q e) wc rest, .ok (.ready wc))
  rejected : ∀ {q e wc rest}, e.pollError = none → (arrived q e).waiting = wc :: rest →
    accepts wc.2 = false → ∃ err, poll q e = (taken (arrived q e) wc rest, .error err)

theorem pollsOldest_conn : PollsOldest (fun _ => true) DCConn.poll where
  failed {q e} h := by
    obtain ⟨err, herr⟩ := Option.ne_none_iff_exists'.mp h
    refine ⟨err, ?_⟩
    unfold DCConn.poll
    rw [herr]
  nothing {q e} h hw := by
    have hpoll : (q.completeAll quiet e.arrivals).poll = _ := SendQueue.poll_of_nil hw
    unfold DCConn.poll
    rw [h]
    dsimp only
    rw [hpoll]
  accepted {q e} _ _ h hw _ := by
    have hpoll : (q.completeAll quiet e.arrivals).poll = _ := SendQueue.poll_of_cons hw
    unfold DCConn.poll
    rw [h]
    dsimp only
    rw [hpoll]
    rfl
  rejected _ _ h := by cases h

theorem pollsOldest_device : PollsOldest (· = .success) DCRemoteDevice.poll where
  failed {q e} h := by
    obtain ⟨err, hp⟩ := pollsOldest_conn.failed (q := q) h
    refine ⟨.datapathError err, ?_⟩
    unfold DCRemoteDevice.poll
    rw [hp]
  nothing h hw := by
    unfold DCRemoteDevice.poll
    rw [pollsOldest_conn.nothing h hw]
  accepted h hw haccepts := by
    unfold DCRemoteDevice.poll
    rw [pollsOldest_conn.accepted h hw rfl]
    exact if_pos (of_decide_eq_true haccepts)
  rejected {q e wc rest} h hw haccepts := by
    refine ⟨.wcErr wc.2, ?_⟩
    unfold DCRemoteDevice.poll
    rw [pollsOldest_conn.accepted h hw rfl]
    exact if_neg (of_decide_eq_false haccepts)

theorem arrived_spec (q : CoreQueue) (e : CqEvent) :
    (arrived q e).signals = q.signals.drop e.arrivals.length ∧
      (arrived q e).waiting =
        q.waiting ++
          SendQueue.reportsFrom quiet q.finished.length q.signals e.arrivals ∧
      (arrived q e).finished.length =
        q.finished.length + min e.arrivals.length q.signals.length :=
  SendQueue.completeAll_spec q e.arrivals

theorem oldest_of_nil {q : CoreQueue} (hw : q.waiting = []) : oldest q = none := by
  rw [oldest, hw]
  rfl

theorem oldest_of_cons {q : CoreQueue} {wc : ℕ × WCStatus} {rest : List (ℕ × WCStatus)}
    (hw : q.waiting = wc :: rest) : oldest q = some wc.2 := by
  rw [oldest, hw]
  rfl

theorem oldest_arrived (q : CoreQueue) (e : CqEvent) :
    oldest (arrived q e) = foundAt (oldest q) q.signals e := by
  rw [oldest, (arrived_spec q e).2.1, foundAt, oldest, ← SendQueue.head?_reportsFrom]
  cases q.waiting <;> rfl

theorem foundAt_append {earlier : List Bool} {e : CqEvent}
    (h : e.arrivals.length ≤ earlier.length) (waiting : Option WCStatus) (later : List Bool) :
    foundAt waiting (earlier ++ later) e = foundAt waiting earlier e := by
  rw [foundAt, foundAt, ← SendQueue.head?_reportsFrom 0, ← SendQueue.head?_reportsFrom 0,
    SendQueue.reportsFrom_append, List.drop_eq_nil_of_le h, SendQueue.reportsFrom_nil_right,
    List.append_nil]

section Own

variable {q : CoreQueue} {earlier : List Bool} {e : CqEvent}

theorem arrived_own (hsignals : q.signals = earlier ++ [true])
    (hle : e.arrivals.length ≤ earlier.length) :
    (arrived q e).signals = earlier.drop e.arrivals.length ++ [true] ∧
      (arrived q e).finished.length + (earlier.drop e.arrivals.length).length =
        q.finished.length + earlier.length := by
  obtain ⟨hnext, -, hlength⟩ := arrived_spec q e
  constructor
  · rw [hnext, hsignals, List.drop_append_of_le_length hle]
  · rw [hlength, hsignals, List.length_append, List.length_singleton, List.length_drop]
    omega

/-- As long as the own READ is outstanding, a poll finds what the earlier work reports. -/
theorem oldest_arrived_own (hsignals : q.signals = earlier ++ [true])
    (hle : e.arrivals.length ≤ earlier.length) :
    oldest (arrived q e) = foundAt (oldest q) earlier e := by
  rw [oldest_arrived, hsignals, foundAt_append hle]

theorem outstanding_of_nothing (hsignals : q.signals = earlier ++ [true])
    (hw : (arrived q e).waiting = []) : e.arrivals.length ≤ earlier.length := by
  by_contra hlong
  rw [(arrived_spec q e).2.1, hsignals, SendQueue.reportsFrom_append,
    List.drop_eq_getElem_cons (Nat.lt_of_not_le hlong)] at hw
  simp [SendQueue.reportsFrom] at hw

/-- The oldest completion is one that was waiting, one of the earlier work, or the own
one. -/
theorem own_iff_of_arrived (hsignals : q.signals = earlier ++ [true])
    (hwaiting : ∀ wc ∈ q.waiting, wc.1 < q.finished.length) {wc : ℕ × WCStatus}
    {rest : List (ℕ × WCStatus)} (hw : (arrived q e).waiting = wc :: rest) :
    wc.1 = q.finished.length + earlier.length ↔
      foundAt (oldest q) earlier e = none ∧ earlier.length < e.arrivals.length := by
  rw [(arrived_spec q e).2.1, hsignals, SendQueue.reportsFrom_append] at hw
  rw [foundAt, ← SendQueue.head?_reportsFrom q.finished.length, oldest]
  cases hq : q.waiting with
  | cons first more =>
    rw [hq, List.cons_append] at hw
    have hlt := hwaiting wc (by rw [hq, (List.cons.inj hw).1]; simp)
    exact iff_of_false (by omega) (by simp)
  | nil =>
    rw [hq, List.nil_append] at hw
    cases hearlier : SendQueue.reportsFrom quiet q.finished.length earlier e.arrivals with
    | cons first more =>
      rw [hearlier, List.cons_append] at hw
      have hlt : wc.1 < q.finished.length + earlier.length :=
        SendQueue.reportsFrom_lt (by rw [hearlier, (List.cons.inj hw).1]; simp)
      exact iff_of_false (by omega) (by simp)
    | nil =>
      rw [hearlier, List.nil_append] at hw
      have hlong : earlier.length < e.arrivals.length := by
        by_contra hshort
        rw [List.drop_eq_nil_of_le (Nat.le_of_not_lt hshort)] at hw
        cases hw
      refine iff_of_true ?_ ⟨rfl, hlong⟩
      rw [List.drop_eq_getElem_cons hlong] at hw
      simp only [SendQueue.reportsFrom, Bool.true_or, if_true, List.append_nil] at hw
      rw [← (List.cons.inj hw).1]

end Own

section Wait

variable {ε : Type} {accepts : WCStatus → Bool}
  {poll : CoreQueue → CqEvent → CoreQueue × Poll (ℕ × WCStatus) ε}

abbrev waitBy (poll : CoreQueue → CqEvent → CoreQueue × Poll (ℕ × WCStatus) ε) (q : CoreQueue)
    (polls : List (CqEvent × ℤ)) :
    CoreQueue × Option (Except (TimeoutError ε) (ℕ × WCStatus)) :=
  blockOn (Timeout.poll poll timeoutUsec) q polls

theorem PollsOldest.wait_cons (h : PollsOldest accepts poll) (q : CoreQueue) (e : CqEvent)
    (passed : ℤ) (polls : List (CqEvent × ℤ)) :
    (e.pollError ≠ none ∧
      ∃ err, waitBy poll q ((e, passed) :: polls) = (arrived q e, some (.error err))) ∨
    (e.pollError = none ∧ ∃ wc rest, (arrived q e).waiting = wc :: rest ∧
      ((accepts wc.2 = true ∧
        waitBy poll q ((e, passed) :: polls) = (taken (arrived q e) wc rest, some (.ok wc))) ∨
      (accepts wc.2 = false ∧ ∃ err, waitBy poll q ((e, passed) :: polls) =
        (taken (arrived q e) wc rest, some (.error err))))) ∨
    (e.pollError = none ∧ (arrived q e).waiting = [] ∧
      ((timeoutUsec ≤ passed ∧ ∃ err, waitBy poll q ((e, passed) :: polls) =
        (arrived q e, some (.error err))) ∨
      (passed < timeoutUsec ∧
        waitBy poll q ((e, passed) :: polls) = waitBy poll (arrived q e) polls))) := by
  unfold waitBy
  by_cases herror : e.pollError = none
  · refine Or.inr ?_
    cases hw : (arrived q e).waiting with
    | nil =>
      refine Or.inr ⟨herror, rfl, ?_⟩
      rcases le_or_gt timeoutUsec passed with hpassed | hpassed
      · refine Or.inl ⟨hpassed, .elapsed, ?_⟩
        rw [blockOn, Timeout.poll, h.nothing herror hw]
        dsimp only [Delay.poll]
        rw [if_pos hpassed]
      · refine Or.inr ⟨hpassed, ?_⟩
        rw [blockOn, Timeout.poll, h.nothing herror hw]
        dsimp only [Delay.poll]
        rw [if_neg (not_le.mpr hpassed)]
    | cons wc rest =>
      refine Or.inl ⟨herror, wc, rest, rfl, ?_⟩
      cases haccepts : accepts wc.2 with
      | true =>
        refine Or.inl ⟨rfl, ?_⟩
        rw [blockOn, Timeout.poll, h.accepted herror hw haccepts]
      | false =>
        obtain ⟨err, hp⟩ := h.rejected herror hw haccepts
        refine Or.inr ⟨rfl, .inner err, ?_⟩
        rw [blockOn, Timeout.poll, hp]
  · obtain ⟨err, hp⟩ := h.failed (q := q) herror
    refine Or.inl ⟨herror, .inner err, ?_⟩
    rw [blockOn, Timeout.poll, hp]

/-- A wait ends at its first poll, or it goes on as if it began behind it. -/
theorem PollsOldest.wait_finished (h : PollsOldest accepts poll) (q : CoreQueue) (e : CqEvent)
    (passed : ℤ) (polls : List (CqEvent × ℤ)) :
    (waitBy poll q ((e, passed) :: polls)).1.finished = (arrived q e).finished ∨
      waitBy poll q ((e, passed) :: polls) = waitBy poll (arrived q e) polls := by
  rcases h.wait_cons q e passed polls with ⟨-, err, hwait⟩ |
    ⟨-, wc, rest, -, ⟨-, hwait⟩ | ⟨-, err, hwait⟩⟩ | ⟨-, -, ⟨-, err, hwait⟩ | ⟨-, hwait⟩⟩
  · exact Or.inl (by rw [hwait])
  · exact Or.inl (by rw [hwait, taken_finished])
  · exact Or.inl (by rw [hwait, taken_finished])
  · exact Or.inl (by rw [hwait])
  · exact Or.inr hwait

theorem PollsOldest.finished_le (h : PollsOldest accepts poll) (q : CoreQueue)
    (polls : List (CqEvent × ℤ)) :
    q.finished.length ≤ (waitBy poll q polls).1.finished.length := by
  induction polls generalizing q with
  | nil => exact le_rfl
  | cons first polls ih =>
    obtain ⟨e, passed⟩ := first
    have hle : q.finished.length ≤ (arrived q e).finished.length :=
      (SendQueue.completes_completeAll q e.arrivals).finished.length_le
    rcases h.wait_finished q e passed polls with hend | hwait
    · rwa [hend]
    · rw [hwait]
      exact hle.trans (ih _)

theorem PollsOldest.arrived_le (h : PollsOldest accepts poll) (q : CoreQueue) (e : CqEvent)
    (passed : ℤ) (polls : List (CqEvent × ℤ)) :
    (arrived q e).finished.length ≤
      (waitBy poll q ((e, passed) :: polls)).1.finished.length := by
  rcases h.wait_finished q e passed polls with hend | hwait
  · rw [hend]
  · rw [hwait]
    exact h.finished_le _ _

/-- At the last poll nothing arrives and the time is over. -/
theorem PollsOldest.wait_expiry (h : PollsOldest accepts poll) (q : CoreQueue) :
    (∃ wc rest, q.waiting = wc :: rest ∧
      ((accepts wc.2 = true ∧ waitBy poll q [expiry] = (taken q wc rest, some (.ok wc))) ∨
      (accepts wc.2 = false ∧
        ∃ err, waitBy poll q [expiry] = (taken q wc rest, some (.error err))))) ∨
    (q.waiting = [] ∧ ∃ err, waitBy poll q [expiry] = (q, some (.error err))) := by
  rcases h.wait_cons q expiry.1 expiry.2 [] with ⟨herror, -⟩ |
    ⟨-, hfound⟩ | ⟨-, hw, ⟨-, hwait⟩ | ⟨hpassed, -⟩⟩
  · exact absurd rfl herror
  · exact Or.inl hfound
  · exact Or.inr ⟨hw, hwait⟩
  · exact absurd hpassed (lt_irrefl _)

/-- A wait fails with its own READ outstanding just when its schedule has it give up. -/
theorem PollsOldest.gives_up_iff (h : PollsOldest accepts poll) {q : CoreQueue}
    {earlier : List Bool} (hsignals : q.signals = earlier ++ [true])
    (polls : List (CqEvent × ℤ)) :
    (∃ q' err, waitBy poll q (polls ++ [expiry]) = (q', some (.error err)) ∧
        q'.finished.length ≤ q.finished.length + earlier.length) ↔
      GivesUp accepts (oldest q) earlier polls := by
  induction polls generalizing q earlier with
  | nil =>
    rw [GivesUp, List.nil_append]
    rcases h.wait_expiry q with
      ⟨wc, rest, hw, ⟨haccepts, hwait⟩ | ⟨haccepts, err, hwait⟩⟩ | ⟨hw, err, hwait⟩
    · rw [oldest_of_cons hw]
      refine iff_of_false ?_ (by simp [haccepts])
      rintro ⟨q', err, heq, -⟩
      cases hwait.symm.trans heq
    · rw [oldest_of_cons hw]
      exact iff_of_true ⟨_, err, hwait, Nat.le_add_right _ _⟩ (by simp [haccepts])
    · rw [oldest_of_nil hw]
      exact iff_of_true ⟨q, err, hwait, Nat.le_add_right _ _⟩ (by simp)
  | cons first polls ih =>
    obtain ⟨e, passed⟩ := first
    have hlength := (arrived_spec q e).2.2
    rw [hsignals, List.length_append, List.length_singleton] at hlength
    rw [List.cons_append, GivesUp]
    by_cases hle : e.arrivals.length ≤ earlier.length
    swap
    · -- the own READ has ended at this poll
      refine iff_of_false ?_ fun hgives => hle hgives.1
      rintro ⟨q', err, hwait, hbound⟩
      have hgrows := h.arrived_le q e passed (polls ++ [expiry])
      rw [hwait] at hgrows
      dsimp only at hgrows
      omega
    rw [and_iff_right hle, ← oldest_arrived_own hsignals hle]
    have hbound : (arrived q e).finished.length ≤ q.finished.length + earlier.length := by omega
    rcases h.wait_cons q e passed (polls ++ [expiry]) with ⟨herror, err, hwait⟩ |
      ⟨herror, wc, rest, hw, hend⟩ | ⟨herror, hw, hend⟩
    · exact iff_of_true ⟨_, err, hwait, hbound⟩ (Or.inl herror)
    · rw [oldest_of_cons hw, or_iff_right (not_not.mpr herror)]
      rcases hend with ⟨haccepts, hwait⟩ | ⟨haccepts, err, hwait⟩
      · refine iff_of_false ?_ (by simp [haccepts])
        rintro ⟨q', err, heq, -⟩
        cases hwait.symm.trans heq
      · exact iff_of_true ⟨_, err, hwait, hbound⟩ haccepts
    · rw [oldest_of_nil hw, or_iff_right (not_not.mpr herror)]
      rcases hend with ⟨hpassed, err, hwait⟩ | ⟨hpassed, hwait⟩
      · exact iff_of_true ⟨_, err, hwait, hbound⟩ (Or.inl hpassed)
      · obtain ⟨hrest, hsame⟩ := arrived_own hsignals hle
        have hih := ih hrest
        rw [oldest_of_nil hw, hsame] at hih
        rw [hwait, or_iff_right (not_le.mpr hpassed), hih]

end Wait

/-! ## A wait that takes any completion -/

/-- Such a wait fails just when its schedule brings it nothing. -/
theorem waitConn_error_iff (q : CoreQueue) (polls : List (CqEvent × ℤ)) :
    (∃ q' err, waitConn q polls = (q', some (.error err))) ↔
      GetsNothing (oldest q) q.signals polls := by
  unfold waitConn
  induction polls generalizing q with
  | nil =>
    rw [GetsNothing, List.nil_append]
    rcases pollsOldest_conn.wait_expiry q with
      ⟨wc, rest, hw, ⟨-, hwait⟩ | ⟨haccepts, -⟩⟩ | ⟨hw, err, hwait⟩
    · refine iff_of_false ?_ (by simp [oldest_of_cons hw])
      rintro ⟨q', err, heq⟩
      cases hwait.symm.trans heq
    · cases haccepts
    · exact iff_of_true ⟨q, err, hwait⟩ (oldest_of_nil hw)
  | cons first polls ih =>
    obtain ⟨e, passed⟩ := first
    rw [List.cons_append, GetsNothing, ← oldest_arrived]
    rcases pollsOldest_conn.wait_cons q e passed (polls ++ [expiry]) with ⟨herror, err, hwait⟩ |
      ⟨herror, wc, rest, hw, ⟨-, hwait⟩ | ⟨haccepts, -⟩⟩ | ⟨herror, hw, hend⟩
    · exact iff_of_true ⟨_, err, hwait⟩ (Or.inl herror)
    · refine iff_of_false ?_ (by simp [herror, oldest_of_cons hw])
      rintro ⟨q', err, heq⟩
      cases hwait.symm.trans heq
    · cases haccepts
    · rw [oldest_of_nil hw, or_iff_right (not_not.mpr herror), and_iff_right rfl]
      rcases hend with ⟨hpassed, err, hwait⟩ | ⟨hpassed, hwait⟩
      · exact iff_of_true ⟨_, err, hwait⟩ (Or.inl hpassed)
      · have hih := ih (arrived q e)
        rw [oldest_of_nil hw, (arrived_spec q e).1] at hih
        unfold waitBy at hwait
        rw [or_iff_right (not_le.mpr hpassed), ← hih, hwait]

theorem waitConn_own_iff {q : CoreQueue} {earlier : List Bool}
    (hsignals : q.signals = earlier ++ [true])
    (hwaiting : ∀ wc ∈ q.waiting, wc.1 < q.finished.length) (polls : List (CqEvent × ℤ)) :
    (∃ q' wc, waitConn q polls = (q', some (.ok wc)) ∧
        wc.1 = q.finished.length + earlier.length) ↔
      GetsOwn (oldest q) earlier polls := by
  unfold waitConn
  induction polls generalizing q earlier with
  | nil =>
    refine iff_of_false ?_ id
    rintro ⟨q', wc, hwait, hwc⟩
    rcases pollsOldest_conn.wait_expiry q with
      ⟨wc', rest, hw, ⟨-, hwait'⟩ | ⟨haccepts, -⟩⟩ | ⟨-, err, hwait'⟩
    · cases hwait'.symm.trans hwait
      have hlt := hwaiting wc (by rw [hw]; exact List.mem_cons_self)
      omega
    · cases haccepts
    · cases hwait'.symm.trans hwait
  | cons first polls ih =>
    obtain ⟨e, passed⟩ := first
    rw [List.cons_append, GetsOwn]
    rcases pollsOldest_conn.wait_cons q e passed (polls ++ [expiry]) with ⟨herror, err, hwait⟩ |
      ⟨herror, wc, rest, hw, ⟨-, hwait⟩ | ⟨haccepts, -⟩⟩ | ⟨herror, hw, hend⟩
    · refine iff_of_false ?_ fun hgets => herror hgets.1
      rintro ⟨q', wc, heq, -⟩
      cases hwait.symm.trans heq
    · have hown := own_iff_of_arrived hsignals hwaiting hw
      rw [and_iff_right herror]
      constructor
      · rintro ⟨q', wc', heq, hwc⟩
        cases hwait.symm.trans heq
        obtain ⟨hfound, hlong⟩ := hown.mp hwc
        exact ⟨hfound, Or.inl hlong⟩
      · rintro ⟨hfound, hlong | ⟨-, -⟩⟩
        · exact ⟨_, wc, hwait, hown.mpr ⟨hfound, hlong⟩⟩
        · -- the completion that was found is the own one
          by_cases hlong : earlier.length < e.arrivals.length
          · exact ⟨_, wc, hwait, hown.mpr ⟨hfound, hlong⟩⟩
          · rw [← oldest_arrived_own hsignals (Nat.le_of_not_lt hlong), oldest_of_cons hw] at hfound
            cases hfound
    · cases haccepts
    · have hle := outstanding_of_nothing hsignals hw
      have hnone : foundAt (oldest q) earlier e = none := by
        rw [← oldest_arrived_own hsignals hle, oldest_of_nil hw]
      rw [and_iff_right herror, and_iff_right hnone, or_iff_right (Nat.not_lt.mpr hle)]
      rcases hend with ⟨hpassed, err, hwait⟩ | ⟨hpassed, hwait⟩
      · refine iff_of_false ?_ fun hgets => absurd hgets.1 (not_lt.mpr hpassed)
        rintro ⟨q', wc, heq, -⟩
        cases hwait.symm.trans heq
      · obtain ⟨hrest, hsame⟩ := arrived_own hsignals hle
        have hih := ih hrest (by rw [hw]; simp)
        rw [oldest_of_nil hw, hsame] at hih
        unfold waitBy at hwait
        rw [and_iff_right hpassed, ← hih, hwait]

end Mitosis.Fetch
