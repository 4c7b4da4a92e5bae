import Mitosis.Fetch.Batch
import Mitosis.Fetch.Frees
import Mitosis.Prefetcher.Executor

/-!
# Which fetched pages were read

A page holds the remote content once its READ has finished with
`IB_WC_SUCCESS`.  `remote_read` waits on the device, which checks the status of
the completion; the other paths wait on the connection, which does not.
Neither of them looks which READ the completion is for.  Whether a path only
returns pages that were read depends on what the queue pair still holds from
earlier calls and on the statuses that the NIC reports.
-/

namespace Mitosis.Fetch

open Mitosis.OsNetwork
open Mitosis.Prefetcher
open Mitosis.RemoteMapping
open Mitosis.RemotePaging
open Mitosis.Support

/-- The READ into the page has finished with `IB_WC_SUCCESS`. -/
def Verified (queues : Queues) (rec : FetchRecord) : Prop :=
  ∃ r, rec.read = some r ∧ (queues rec.queue).finished[r.serial]? = some .success

/-- Every page that a call returns was read. -/
def ReturnsVerified (result : Queues × List FetchRecord) : Prop :=
  ∀ rec ∈ result.2, rec.fate = .returned → Verified result.1 rec

/-- The NIC reports no other status than `IB_WC_SUCCESS` and those of `S`. -/
def Reporting (S : WCStatus → Prop) (polls : List (CqEvent × ℤ)) : Prop :=
  ∀ p ∈ polls, ∀ st ∈ p.1.arrivals, st = .success ∨ S st

/-- Earlier work brings no completion unless it fails. -/
def Quiescent (q : CoreQueue) : Prop := q.waiting = [] ∧ ∀ w ∈ q.inFlight, w.2 = false

/-- The completion that the next wait takes reports a failure. -/
def FailsFirst (q : CoreQueue) : Prop := ∃ c, q.waiting.head? = some c ∧ c.2 ≠ .success

/-! ## Schedules -/

section Schedules

variable {q : CoreQueue} {wc : ℕ × WCStatus} {rest : List (ℕ × WCStatus)}
  {arrivals : List WCStatus}

theorem DCConn.poll_of_waiting (h : (q.completeAll quiet arrivals).waiting = wc :: rest) :
    DCConn.poll q ⟨arrivals, none⟩ =
      (taken (q.completeAll quiet arrivals) wc rest, .ok (.ready wc)) := by
  unfold DCConn.poll
  dsimp only
  rw [SendQueue.poll_of_cons h]
  rfl

theorem waitConn_of_waiting (h : (q.completeAll quiet arrivals).waiting = wc :: rest) :
    waitConn q [(⟨arrivals, none⟩, 0)] =
      (taken (q.completeAll quiet arrivals) wc rest, some (.ok wc)) := by
  simp [waitConn, blockOn, Timeout.poll, DCConn.poll_of_waiting h]

theorem waitDevice_of_waiting (h : (q.completeAll quiet arrivals).waiting = wc :: rest)
    (hs : wc.2 = .success) :
    waitDevice q [(⟨arrivals, none⟩, 0)] =
      (taken (q.completeAll quiet arrivals) wc rest, some (.ok wc)) := by
  simp [waitDevice, blockOn, Timeout.poll, DCRemoteDevice.poll, DCConn.poll_of_waiting h, hs]

theorem reporting_replicate (S : WCStatus → Prop) (n : ℕ) (t : ℤ) :
    Reporting S [(⟨List.replicate n .success, none⟩, t)] := by
  intro p hp st hst
  rw [List.mem_singleton.mp hp] at hst
  exact Or.inl (List.eq_of_mem_replicate hst)

theorem reporting_singleton {S : WCStatus → Prop} {st : WCStatus} (h : S st) (t : ℤ) :
    Reporting S [(⟨[st], none⟩, t)] := by
  intro p hp st' hst'
  rw [List.mem_singleton.mp hp] at hst'
  rw [List.mem_singleton.mp hst']
  exact Or.inr h

/-- If earlier work can bring a completion, there is a schedule on which it does
so before later work finishes. -/
theorem exists_stale_completion {q₀ : CoreQueue} (hworks : q.works <+: q₀.works)
    (hposts : PostsOnly q q₀) (hvalid : q.Valid) (hq : ¬ Quiescent q) :
    ∃ n wc rest, (q₀.completeAll quiet (List.replicate n .success)).waiting = wc :: rest ∧
      (wc.2 = .success ∨ q.waiting.head? = some wc) ∧
      (q₀.completeAll quiet (List.replicate n .success)).finished.length ≤ q.works.length := by
  cases hwaiting : q.waiting with
  | cons c rest =>
    refine ⟨0, c, rest, hposts.waiting.trans hwaiting, Or.inr rfl, ?_⟩
    exact hposts.finished ▸ hvalid.bounded
  | nil =>
    have hsignaled : ∃ w ∈ q.inFlight, w.2 = true := by
      by_contra hnone
      push Not at hnone
      exact hq ⟨hwaiting, fun w hw => Bool.eq_false_of_not_eq_true (hnone w hw)⟩
    obtain ⟨⟨t, signaled⟩, hw, rfl⟩ := hsignaled
    obtain ⟨k, hle, hk⟩ := SendQueue.mem_inFlight_iff.mp hw
    have hquiet : quiet .success = true := rfl
    obtain ⟨n, i, hi, hbound⟩ := SendQueue.exists_completeAll_waiting hquiet
      (hposts.finished ▸ hle) (getElem?_mono hworks hk) (hposts.waiting.trans hwaiting)
    exact ⟨n, (i, .success), [], hi, Or.inl rfl,
      hbound.trans (List.getElem?_eq_some_iff.mp hk).1⟩

theorem completeAll_failed (hwaiting : q.waiting = [])
    (hlt : q.finished.length < q.works.length) {st : WCStatus} (hst : st ≠ .success) :
    (q.completeAll quiet [st]).waiting = [(q.finished.length, st)] ∧
      (q.completeAll quiet [st]).finished = q.finished ++ [st] := by
  have hloud : quiet st = false := by simp [quiet, hst]
  simp [SendQueue.completeAll, SendQueue.complete, List.getElem?_eq_getElem hlt, hwaiting, hloud]

theorem finishesWith_waitConn {P : WCStatus → Prop} {polls : List (CqEvent × ℤ)}
    (hpolls : ∀ p ∈ polls, ∀ st ∈ p.1.arrivals, P st) :
    SendQueue.FinishesWith P q (waitConn q polls).1 := by
  refine Waited.state (I := SendQueue.FinishesWith P q) ?_ (fun _ h => h)
  refine waited_blockOn_of_mem (fun q₀ e he hq₀ => ?_) (SendQueue.FinishesWith.refl q)
  have harrivals : ∀ st ∈ e.1.arrivals, P st := by
    rcases List.mem_append.mp he with he | he
    · exact hpolls e he
    · rw [List.mem_singleton.mp he]
      exact fun st hst => nomatch hst
  have hnext : SendQueue.FinishesWith P q (arrived q₀ e.1) :=
    hq₀.trans (SendQueue.finishesWith_completeAll q₀ harrivals)
  have hpoll : Polled (SendQueue.FinishesWith P q) (fun q' _ => SendQueue.FinishesWith P q q')
      (DCConn.poll q₀ e.1) := by
    obtain ⟨err, hp⟩ | hp | ⟨wc, rest, -, hp⟩ := DCConn.poll_cases q₀ e.1
    · rw [hp]
      exact hnext
    · rw [hp]
      exact hnext
    · rw [hp]
      exact hnext
  exact polled_timeout hpoll (fun _ _ h => h) (fun _ _ h => h) (fun _ h => h)

end Schedules

/-! ## One page

A READ is posted on the queue pair `q` and waited for. -/

section OnePage

variable {q q' : CoreQueue} {own : ReadRequest} {wc : ℕ × WCStatus} {S : WCStatus → Prop}

theorem finished_of_quiescent (hq : Quiescent q) (htook : Took (q.post own true) q' wc)
    (hsuccess : wc.2 = .success) : q'.finished[q.works.length]? = some .success := by
  rcases htook.cases with hhead | ⟨-, hle, hstatus, ⟨t, hwork⟩ | hloud⟩
  · rw [SendQueue.post_waiting, hq.1] at hhead
    cases hhead
  · rw [htook.works, SendQueue.post_works] at hwork
    rw [hsuccess] at hstatus
    by_cases hlt : wc.1 < q.works.length
    · rw [List.getElem?_append_left hlt] at hwork
      cases hq.2 (t, true) (SendQueue.mem_inFlight_iff.mpr ⟨wc.1, hle, hwork⟩)
    · have hbound := (List.getElem?_eq_some_iff.mp hwork).1
      rw [List.length_append, List.length_singleton] at hbound
      have hown : wc.1 = q.works.length := by omega
      rwa [hown] at hstatus
  · simp [quiet, hsuccess] at hloud

theorem not_finished_of_length_le (h : q'.finished.length ≤ q.works.length) :
    q'.finished[q.works.length]? ≠ some .success := by
  rw [List.getElem?_eq_none h]
  exact fun hnone => nomatch hnone

theorem postsOnly_post (q : CoreQueue) (own : ReadRequest) (signaled : Bool) :
    PostsOnly q (q.post own signaled) where
  finished := rfl
  waiting := rfl
  polled := rfl

/-- A wait on the device ends well only with the READ, on every schedule, if and
only if earlier work brings no completion or the oldest one reports a failure. -/
theorem waitDevice_verified_iff (own : ReadRequest) (hvalid : q.Valid) :
    (∀ polls, Reporting S polls → ∀ q' wc,
      waitDevice (q.post own true) polls = (q', some (.ok wc)) →
      q'.finished[q.works.length]? = some .success) ↔ Quiescent q ∨ FailsFirst q := by
  constructor
  · intro h
    by_contra hnot
    push Not at hnot
    obtain ⟨hq, hfails⟩ := hnot
    obtain ⟨n, wc, rest, hi, hwc, hbound⟩ := exists_stale_completion
      (List.prefix_append _ _) (postsOnly_post q own true) hvalid hq
    have hsuccess : wc.2 = .success := by
      rcases hwc with hwc | hhead
      · exact hwc
      · by_contra hne
        exact hfails ⟨wc, hhead, hne⟩
    have hread := h _ (reporting_replicate S n 0) _ _ (waitDevice_of_waiting hi hsuccess)
    exact not_finished_of_length_le hbound hread
  · intro h polls _ q' wc hwait
    obtain ⟨htook, hsuccess⟩ := took_of_waitDevice hwait
    rcases h with hq | ⟨c, hhead, hne⟩
    · exact finished_of_quiescent hq htook hsuccess
    · rcases htook.cases with hhead' | ⟨hnil, -⟩
      · rw [SendQueue.post_waiting, hhead] at hhead'
        cases hhead'
        exact absurd hsuccess hne
      · rw [SendQueue.post_waiting] at hnil
        rw [hnil] at hhead
        cases hhead

theorem success_of_took {polls : List (CqEvent × ℤ)} (hS : ∀ st, S st → st = .success)
    (hpolls : Reporting S polls) (hwaiting : q.waiting = [])
    (hwait : waitConn q polls = (q', some (.ok wc))) : wc.2 = .success := by
  rcases (took_of_waitConn hwait).cases with hhead | ⟨-, hle, hstatus, -⟩
  · rw [hwaiting] at hhead
    cases hhead
  · have hfinishes : SendQueue.FinishesWith (· = .success) q (waitConn q polls).1 := by
      refine finishesWith_waitConn fun p hp st hst => ?_
      exact (hpolls p hp st hst).elim id (hS st)
    rw [hwait] at hfinishes
    have hlt := (List.getElem?_eq_some_iff.mp hstatus).1
    rw [hfinishes.getElem?_eq hle hlt] at hstatus
    exact (Option.some.inj hstatus).symm

/-- A wait on the connection ends well only with the READ, on every schedule, if
and only if earlier work brings no completion and the NIC reports no failure. -/
theorem waitConn_verified_iff (own : ReadRequest) (hvalid : q.Valid) :
    (∀ polls, Reporting S polls → ∀ q' wc,
      waitConn (q.post own true) polls = (q', some (.ok wc)) →
      q'.finished[q.works.length]? = some .success) ↔
    Quiescent q ∧ ∀ st, S st → st = .success := by
  constructor
  · intro h
    have hq : Quiescent q := by
      by_contra hnot
      obtain ⟨n, wc, rest, hi, -, hbound⟩ := exists_stale_completion
        (List.prefix_append _ _) (postsOnly_post q own true) hvalid hnot
      have hread := h _ (reporting_replicate S n 0) _ _ (waitConn_of_waiting hi)
      exact not_finished_of_length_le hbound hread
    refine ⟨hq, fun st hst => ?_⟩
    by_contra hne
    have hlt : (q.post own true).finished.length < (q.post own true).works.length := by
      rw [SendQueue.post_works, List.length_append]
      exact Nat.lt_succ_of_le hvalid.bounded
    have hempty : (q.post own true).waiting = [] := hq.1
    obtain ⟨hi, hfinished⟩ := completeAll_failed hempty hlt hne
    have hread := h _ (reporting_singleton hst 0) _ _ (waitConn_of_waiting hi)
    -- either the READ itself has failed, or it has not finished
    rw [taken_finished, hfinished, SendQueue.post_finished,
      List.getElem?_append_right hvalid.bounded] at hread
    exact hne (List.mem_singleton.mp (List.mem_of_getElem? hread)).symm
  · rintro ⟨hq, hS⟩ polls hpolls q' wc hwait
    have hempty : (q.post own true).waiting = [] := hq.1
    exact finished_of_quiescent hq (took_of_waitConn hwait)
      (success_of_took hS hpolls hempty hwait)

/-- Without a READ of its own, a wait on the connection never ends well if and
only if earlier work brings no completion, or can fail. -/
theorem waitConn_never_iff (hvalid : q.Valid) :
    (∀ polls, Reporting S polls → ∀ q' wc, waitConn q polls ≠ (q', some (.ok wc))) ↔
      Quiescent q ∧ ((∀ st, S st → st = .success) ∨ q.inFlight = []) := by
  constructor
  · intro h
    have hq : Quiescent q := by
      by_contra hnot
      obtain ⟨n, wc, rest, hi, -⟩ := exists_stale_completion List.prefix_rfl ⟨rfl, rfl, rfl⟩
        hvalid hnot
      exact h _ (reporting_replicate S n 0) _ _ (waitConn_of_waiting hi)
    refine ⟨hq, ?_⟩
    by_contra hnot
    push Not at hnot
    obtain ⟨⟨st, hst, hne⟩, hflight⟩ := hnot
    have hlt : q.finished.length < q.works.length := by
      rw [SendQueue.inFlight, Ne, List.drop_eq_nil_iff] at hflight
      exact Nat.lt_of_not_le hflight
    exact h _ (reporting_singleton hst 0) _ _
      (waitConn_of_waiting (completeAll_failed hq.1 hlt hne).1)
  · rintro ⟨hq, hnone⟩ polls hpolls q' wc hwait
    have htook := took_of_waitConn hwait
    rcases htook.cases with hhead | ⟨-, hle, hstatus, hwhy⟩
    · rw [hq.1] at hhead
      cases hhead
    have hlt : wc.1 < q.works.length := by
      have hbound := (htook.waits.valid hvalid).bounded
      rw [htook.works] at hbound
      exact (List.getElem?_eq_some_iff.mp hstatus).1.trans_le hbound
    have hflight : q.works[wc.1] ∈ q.inFlight :=
      SendQueue.mem_inFlight_iff.mpr ⟨wc.1, hle, List.getElem?_eq_getElem hlt⟩
    rcases hnone with hS | hnil
    · rcases hwhy with ⟨t, hwork⟩ | hloud
      · rw [htook.works, List.getElem?_eq_getElem hlt, Option.some.injEq] at hwork
        have hunsignaled := hq.2 _ hflight
        rw [hwork] at hunsignaled
        cases hunsignaled
      · rw [success_of_took hS hpolls hq.1 hwait] at hloud
        cases hloud
    · rw [hnil] at hflight
      cases hflight

end OnePage

/-! ## The paths -/

theorem fateOf_returned_imp_iff {ε α : Type} {w : CoreQueue × Option (Except ε α)}
    {P : CoreQueue → Prop} :
    (fateOf w.2 = .returned → P w.1) ↔ ∀ q' v, w = (q', some (.ok v)) → P q' := by
  obtain ⟨q, _ | _ | v⟩ := w
  · simp [fateOf]
  · simp [fateOf]
  · simp [fateOf]

theorem returnsVerified_singleton {queues : Queues} {id : QueueId} {q : CoreQueue} {page : ℕ}
    {own : ReadRequest} {fate : PageFate} :
    ReturnsVerified (Function.update queues id q, [⟨id, page, some own, fate⟩]) ↔
      (fate = .returned → q.finished[own.serial]? = some .success) := by
  simp [ReturnsVerified, Verified]

section Paths

variable {S : WCStatus → Prop} {queues : Queues} {lookupPgTable : VirtAddr → Option PhysAddr}
  {remoteVa : VirtAddr} {info : AccessInfo} {env : PostEnv}

theorem readRemotePage_verified_iff {useRc : Bool} (hvalid : ∀ id, (queues id).Valid)
    (hmapped : lookupPgTable remoteVa ≠ none) (hpost : env.postError = none) :
    (∀ polls, Reporting S polls → ReturnsVerified
      (readRemotePage useRc lookupPgTable queues remoteVa info ⟨env, polls⟩)) ↔
    Quiescent (queues (if useRc then .rc env.cpu info.macId else .dc env.cpu)) ∨
      FailsFirst (queues (if useRc then .rc env.cpu info.macId else .dc env.cpu)) := by
  obtain ⟨src, hsrc⟩ := Option.ne_none_iff_exists'.mp hmapped
  rw [← waitDevice_verified_iff (nextRead (queues _) (endpointOf useRc info)
    (PhysAddr.decode src) info.rkey env.page) (hvalid _)]
  refine forall₂_congr fun polls _ => ?_
  rw [readRemotePage, hsrc]
  dsimp only
  rw [remoteRead, hpost]
  dsimp only
  rw [returnsVerified_singleton]
  exact fateOf_returned_imp_iff (P := fun q' => q'.finished[(queues _).works.length]? = _)

theorem readRemotePagePrefetch_verified_iff (hvalid : ∀ id, (queues id).Valid)
    {src : PhysAddr} (hsrc : lookupPgTable remoteVa = some src)
    (hremote : PhysAddr.isPrefetch src = false) (hpost : env.postError = none) :
    (∀ polls, Reporting S polls → ReturnsVerified
      (readRemotePagePrefetch lookupPgTable queues remoteVa info ⟨env, polls⟩)) ↔
    Quiescent (queues (.dc env.cpu)) ∧ ∀ st, S st → st = .success := by
  have hnot : ¬ PhysAddr.isPrefetch src = true := ne_true_of_eq_false hremote
  rw [← waitConn_verified_iff (nextRead (queues _) (some info.accessHandler)
    (PhysAddr.decode src) info.rkey env.page) (hvalid _)]
  refine forall₂_congr fun polls _ => ?_
  rw [readRemotePagePrefetch, hsrc]
  dsimp only
  rw [if_neg hnot, hpost]
  dsimp only
  rw [returnsVerified_singleton]
  exact fateOf_returned_imp_iff (P := fun q' => q'.finished[(queues _).works.length]? = _)

/-! ## The batch -/

/-- The pages that a batch returns. -/
def BatchVerified (result : Queues × List (Option FetchRecord)) : Prop :=
  ReturnsVerified (result.1, result.2.reduceOption)

variable {addrs : List (VirtAddr × PostEnv)}

theorem finishesWith_batch {P : WCStatus → Prop} {polls : List (CqEvent × ℤ)}
    (hpolls : ∀ p ∈ polls, ∀ st ∈ p.1.arrivals, P st) (id : QueueId) :
    SendQueue.FinishesWith P (queues id)
      ((batchReadRemotePages lookupPgTable info polls queues (addrs ++ [(remoteVa, env)])).1
        id) := by
  have hmid : SendQueue.FinishesWith P (queues id)
      ((postUnsignaled lookupPgTable info queues addrs).1 id) :=
    SendQueue.finishesWith_of_finished_eq (postsOnly_postUnsignaled _ _ _ addrs id).finished
  rw [batchReadRemotePages_append]
  dsimp only
  refine hmid.trans ?_
  cases hsrc : lookupPgTable remoteVa with
  | none =>
    rw [batchReadOne_unmapped hsrc]
    exact SendQueue.FinishesWith.refl _
  | some src =>
    rw [batchReadOne_last hsrc]
    dsimp only
    by_cases hid : id = .dc env.cpu
    · subst hid
      rw [Function.update_self]
      exact (SendQueue.finishesWith_of_finished_eq
        (postsOnly_lastPost info _ src env).finished).trans (finishesWith_waitConn hpolls)
    · rw [Function.update_of_ne hid]
      exact SendQueue.FinishesWith.refl _

theorem unmapped_of_batchVerified (hvalid : ∀ id, (queues id).Valid)
    (h : BatchVerified
      (batchReadRemotePages lookupPgTable info [] queues (addrs ++ [(remoteVa, env)]))) :
    ∀ entry ∈ addrs, lookupPgTable entry.1 = none := by
  intro entry hentry
  by_contra hmapped
  obtain ⟨rec, hrec, hreturned⟩ := exists_mem_postUnsignaled info queues hentry hmapped
  have hmem : rec ∈ (batchReadRemotePages lookupPgTable info [] queues
      (addrs ++ [(remoteVa, env)])).2.reduceOption := by
    rw [batchReadRemotePages_append, List.reduceOption_mem_iff]
    exact List.mem_append_left _ hrec
  obtain ⟨r, hr, hfinished⟩ := h rec hmem hreturned.fate
  obtain ⟨-, hserial, -⟩ := (posts_batchReadRemotePages [] _).own rec hmem r hr
  obtain ⟨new, hnew, hnone⟩ : SendQueue.FinishesWith (fun _ => False) (queues rec.queue)
      ((batchReadRemotePages lookupPgTable info [] queues (addrs ++ [(remoteVa, env)])).1
        rec.queue) := finishesWith_batch (by simp) rec.queue
  obtain rfl : new = [] := List.eq_nil_iff_forall_not_mem.mpr hnone
  rw [hnew, List.append_nil, List.getElem?_eq_none
    ((hvalid rec.queue).bounded.trans hserial)] at hfinished
  cases hfinished

theorem batchReadOne_verified_iff (info : AccessInfo) (hvalid : ∀ id, (queues id).Valid) :
    (∀ polls, Reporting S polls → ReturnsVerified
      ((batchReadOne lookupPgTable info polls true queues remoteVa env).1,
        (batchReadOne lookupPgTable info polls true queues remoteVa env).2.toList)) ↔
    (lookupPgTable remoteVa ≠ none →
      Quiescent (queues (.dc env.cpu)) ∧ ((∀ st, S st → st = .success) ∨
        env.postError ≠ none ∧ (queues (.dc env.cpu)).inFlight = [])) := by
  cases hsrc : lookupPgTable remoteVa with
  | none =>
    refine iff_of_true (fun polls _ => ?_) (fun h => absurd rfl h)
    rw [batchReadOne_unmapped hsrc]
    exact fun rec hrec => nomatch hrec
  | some src =>
    rw [forall_prop_of_true (Option.some_ne_none src)]
    cases hpost : env.postError with
    | none =>
      rw [or_iff_left (by simp), ← waitConn_verified_iff (nextRead (queues _)
        (some info.accessHandler) src info.rkey env.page) (hvalid _)]
      refine forall₂_congr fun polls _ => ?_
      rw [batchReadOne_last hsrc, lastPost, hpost]
      refine returnsVerified_singleton.trans ?_
      exact fateOf_returned_imp_iff
        (P := fun q' => q'.finished[(queues _).works.length]? = _)
    | some err =>
      have hright : ((∀ st, S st → st = .success) ∨
          some err ≠ none ∧ (queues (.dc env.cpu)).inFlight = []) ↔
          ((∀ st, S st → st = .success) ∨ (queues (.dc env.cpu)).inFlight = []) := by simp
      rw [hright, ← waitConn_never_iff (hvalid _)]
      refine forall₂_congr fun polls _ => ?_
      rw [batchReadOne_last hsrc, lastPost, hpost]
      refine Iff.trans ?_ (fateOf_returned_imp_iff (P := fun _ => False))
      simp [ReturnsVerified, Verified]

/-- A batch returns only pages that were read, on every schedule, if and only if
no address but the last is mapped, and the last is not or is safe. -/
theorem batch_verified_iff (hvalid : ∀ id, (queues id).Valid) :
    (∀ polls, Reporting S polls → BatchVerified
      (batchReadRemotePages lookupPgTable info polls queues (addrs ++ [(remoteVa, env)]))) ↔
    (∀ entry ∈ addrs, lookupPgTable entry.1 = none) ∧ (lookupPgTable remoteVa ≠ none →
      Quiescent (queues (.dc env.cpu)) ∧ ((∀ st, S st → st = .success) ∨
        env.postError ≠ none ∧ (queues (.dc env.cpu)).inFlight = [])) := by
  have hsame : (∀ entry ∈ addrs, lookupPgTable entry.1 = none) → ∀ polls,
      (BatchVerified (batchReadRemotePages lookupPgTable info polls queues
        (addrs ++ [(remoteVa, env)])) ↔ ReturnsVerified
          ((batchReadOne lookupPgTable info polls true queues remoteVa env).1,
            (batchReadOne lookupPgTable info polls true queues remoteVa env).2.toList)) := by
    intro hunmapped polls
    obtain ⟨hqueues, hrecords⟩ := postUnsignaled_of_unmapped info queues hunmapped
    rw [batchReadRemotePages_append]
    dsimp only
    rw [BatchVerified, hqueues, List.reduceOption_append, hrecords, reduceOption_cons]
    simp
  constructor
  · intro h
    have hunmapped := unmapped_of_batchVerified hvalid (h [] (by simp [Reporting]))
    refine ⟨hunmapped, (batchReadOne_verified_iff info hvalid).mp fun polls hpolls => ?_⟩
    exact (hsame hunmapped polls).mp (h polls hpolls)
  · rintro ⟨hunmapped, hlast⟩ polls hpolls
    exact (hsame hunmapped polls).mpr ((batchReadOne_verified_iff info hvalid).mpr hlast polls hpolls)

/-- A batch whose last READ confirms the others returns only pages that were
read, if the NIC reports no failure. -/
theorem batchVerified_of_lastConfirms (hvalid : ∀ id, (queues id).Valid)
    {polls : List (CqEvent × ℤ)} (hpolls : ∀ p ∈ polls, ∀ st ∈ p.1.arrivals, st = .success)
    (h : LastConfirms lookupPgTable info polls queues addrs remoteVa env) :
    BatchVerified
      (batchReadRemotePages lookupPgTable info polls queues (addrs ++ [(remoteVa, env)])) := by
  intro rec hrec hreturned
  obtain ⟨r, hr, wc, hwc, hle, r', hwork⟩ := batchConfirmed_of_lastConfirms h rec
    (List.reduceOption_mem_iff.mp hrec) hreturned
  refine ⟨r, hr, ?_⟩
  have hposts : Posts queues _ (batchReadRemotePages lookupPgTable info polls queues
      (addrs ++ [(remoteVa, env)])).2.reduceOption := posts_batchReadRemotePages polls _
  obtain ⟨-, hserial, -⟩ := hposts.own rec hrec r hr
  have hstatus := (hposts.valid hvalid rec.queue).polled wc (List.mem_of_mem_drop hwc)
  have hlt := hle.trans_lt (List.getElem?_eq_some_iff.mp hstatus).1
  exact (finishesWith_batch hpolls rec.queue).getElem?_eq
    ((hvalid rec.queue).bounded.trans hserial) hlt

end Paths

/-! ## The prefetcher -/

/-- What happens to a prefetcher: the page table changes, requests are executed,
or a completion is polled. -/
inductive PrefetchOp where
  | table (heap : Heap)
  | executeReqs (reqs : List PageEntry)
  | poll (e : CqEvent)

def PrefetchOp.apply (alloc : PageAllocator) (x : Executor) : PrefetchOp → Executor
  | .table heap => { x with heap := heap }
  | .executeReqs reqs => reqs.foldl (Executor.executeReq alloc) x
  | .poll e => (x.poll e).1

/-- The pending entries are those of the outstanding READs, in order. -/
structure Matched (x : Executor) : Prop where
  pages : x.prefetcher.pendingQueues.map (·.userPage) =
    x.prefetcher.conn.cq.outstanding.map (·.laddr)
  aligned : ∀ v ∈ x.prefetcher.pendingQueues, PhysAddr.bottomBit v.userPage = false

/-- A page is recorded as prefetched only if the completion of its READ has status
`IB_WC_SUCCESS`, whatever the NIC reports at the poll. -/
def PollVerified (S : WCStatus → Prop) (x : Executor) : Prop :=
  ∀ e : CqEvent, (∀ st ∈ e.arrivals, st = .success ∨ S st) → ∀ x' page,
    x.poll e = (x', .ok (.ready page)) →
    ∃ r, (x.prefetcher.conn.cq.completeAll e.arrivals).completed.head? = some (r, .success) ∧
      r.laddr = page

section Prefetcher

variable {S : WCStatus → Prop} {alloc : PageAllocator} {x : Executor}

theorem Matched.executeReq (halloc : ∀ n, PhysAddr.bottomBit (alloc.page n) = false)
    (hx : Matched x) (req : PageEntry) : Matched (x.executeReq alloc req) := by
  unfold Executor.executeReq
  dsimp only
  split
  · exact hx
  · constructor
    · simp [Executor.allocPage, Conn.post, hx.pages]
    · intro v hv
      rcases List.mem_append.mp hv with hv | hv
      · exact hx.aligned v hv
      · rw [List.mem_singleton.mp hv]
        exact halloc _

theorem Matched.poll_cases (hx : Matched x) (e : CqEvent) :
    ((e.pollError ≠ none ∨ (x.prefetcher.conn.cq.completeAll e.arrivals).completed = []) ∧
      (∀ page, (x.poll e).2 ≠ .ok (.ready page)) ∧
      (x.poll e).1.prefetcher.pendingQueues = x.prefetcher.pendingQueues ∧
      (x.poll e).1.prefetcher.conn.cq = x.prefetcher.conn.cq.completeAll e.arrivals) ∨
    ∃ wc rest cq' v, (x.prefetcher.conn.cq.completeAll e.arrivals).completed = wc :: rest ∧
      x.prefetcher.conn.cq.outstanding = wc.1 :: cq'.outstanding ∧
      x.prefetcher.pendingQueues = v :: (x.poll e).1.prefetcher.pendingQueues ∧
      (x.poll e).1.prefetcher.conn.cq = cq' ∧
      wc.1.laddr = v.userPage ∧ (x.poll e).2 = .ok (.ready v.userPage) := by
  unfold Executor.poll
  rcases Conn.poll_cases x.prefetcher.conn e with ⟨err, herr, hp⟩ | ⟨hnil, hp⟩ |
    ⟨wc, cq', hc, hout, hp⟩
  · rw [hp]
    exact Or.inl ⟨Or.inl (by simp [herr]), by simp, rfl, rfl⟩
  · rw [hp]
    exact Or.inl ⟨Or.inr hnil, by simp, rfl, rfl⟩
  · rw [hp]
    have hpages := hx.pages
    rw [hout] at hpages
    cases hpending : x.prefetcher.pendingQueues with
    | nil =>
      rw [hpending] at hpages
      cases hpages
    | cons v rest =>
      rw [hpending, List.map_cons, List.map_cons] at hpages
      have hbit : ¬ PhysAddr.bottomBit v.userPage = true :=
        ne_true_of_eq_false (hx.aligned v (by rw [hpending]; exact List.mem_cons_self))
      dsimp only
      rw [if_neg hbit]
      exact Or.inr ⟨wc, _, cq', v, hc, hout, rfl, rfl, (List.cons.inj hpages).1.symm, rfl⟩

theorem Matched.poll (hx : Matched x) (e : CqEvent) : Matched (x.poll e).1 := by
  rcases hx.poll_cases e with ⟨-, -, hpending, hcq⟩ |
    ⟨wc, rest, cq', v, -, hout, hpending, hcq, -⟩
  · constructor
    · rw [hpending, hcq, CompletionQueue.outstanding_completeAll, hx.pages]
    · rw [hpending]
      exact hx.aligned
  · have hpages := hx.pages
    rw [hpending, hout] at hpages
    constructor
    · rw [hcq]
      exact (List.cons.inj hpages).2
    · intro w hw
      exact hx.aligned w (by rw [hpending]; exact List.mem_cons_of_mem _ hw)

theorem Matched.foldl_executeReq (halloc : ∀ n, PhysAddr.bottomBit (alloc.page n) = false)
    (hx : Matched x) (reqs : List PageEntry) :
    Matched (reqs.foldl (Executor.executeReq alloc) x) := by
  induction reqs generalizing x with
  | nil => exact hx
  | cons req reqs ih => exact ih (hx.executeReq halloc req)

theorem Matched.run (halloc : ∀ n, PhysAddr.bottomBit (alloc.page n) = false)
    (hx : Matched x) (ops : List PrefetchOp) :
    Matched (ops.foldl (PrefetchOp.apply alloc) x) := by
  induction ops generalizing x with
  | nil => exact hx
  | cons op ops ih =>
    apply ih
    cases op with
    | table heap => exact ⟨hx.pages, hx.aligned⟩
    | executeReqs reqs => exact hx.foldl_executeReq halloc reqs
    | poll e => exact hx.poll e

theorem Matched.poll_of_completed (hx : Matched x) {arrivals : List WCStatus}
    {wc : WorkCompletion} {rest : List WorkCompletion}
    (hc : (x.prefetcher.conn.cq.completeAll arrivals).completed = wc :: rest) :
    ∃ x' page, x.poll ⟨arrivals, none⟩ = (x', .ok (.ready page)) := by
  rcases hx.poll_cases ⟨arrivals, none⟩ with ⟨herr | hnil, -⟩ | ⟨-, -, -, v, -, -, -, -, -, hready⟩
  · exact absurd rfl herr
  · rw [hc] at hnil
    cases hnil
  · exact ⟨_, v.userPage, Prod.ext rfl hready⟩

/-- A poll records only pages that were read, whatever arrives, if and only if
the oldest completion reports no failure, and the NIC reports none either if no
completion is there and READs are in flight. -/
theorem pollVerified_iff (hx : Matched x) :
    PollVerified S x ↔
      (∀ c, x.prefetcher.conn.cq.completed.head? = some c → c.2 = .success) ∧
      (x.prefetcher.conn.cq.completed = [] → x.prefetcher.conn.cq.inFlight ≠ [] →
        ∀ st, S st → st = .success) := by
  constructor
  · intro h
    constructor
    · intro c hhead
      obtain ⟨rest, hc⟩ := List.head?_eq_some_iff.mp hhead
      obtain ⟨x', page, hpoll⟩ : ∃ x' page, x.poll ⟨[], none⟩ = (x', .ok (.ready page)) :=
        hx.poll_of_completed hc
      obtain ⟨r, hr, -⟩ := h _ (by simp) x' page hpoll
      rw [CompletionQueue.completeAll, List.foldl_nil, hhead] at hr
      cases hr
      rfl
    · intro hnil hflight st hst
      obtain ⟨t, rest, hflight⟩ := List.exists_cons_of_ne_nil hflight
      have hc : (x.prefetcher.conn.cq.completeAll [st]).completed = [(t, st)] := by
        simp [CompletionQueue.completeAll, CompletionQueue.complete, hflight, hnil]
      obtain ⟨x', page, hpoll⟩ := hx.poll_of_completed hc
      obtain ⟨r, hr, -⟩ := h _ (by simp [hst]) x' page hpoll
      rw [hc] at hr
      cases hr
      rfl
  · rintro ⟨hold, hnew⟩ e he x' page hpoll
    rcases hx.poll_cases e with ⟨-, hnone, -⟩ | ⟨wc, rest, cq', v, hc, hout, -, -, hpage, hready⟩
    · exact absurd (by rw [hpoll]) (hnone page)
    · rw [hpoll] at hready
      cases hready
      have hsuccess : wc.2 = .success := by
        cases hcompleted : x.prefetcher.conn.cq.completed with
        | cons c others =>
          -- it was the oldest one before
          have hgrown := CompletionQueue.completed_prefix_completeAll
            x.prefetcher.conn.cq e.arrivals
          rw [hc, hcompleted] at hgrown
          rw [← (List.cons_prefix_cons.mp hgrown).1]
          exact hold c (by rw [hcompleted]; rfl)
        | nil =>
          have hflight : x.prefetcher.conn.cq.inFlight ≠ [] := by
            intro hflight
            simp [CompletionQueue.outstanding, hcompleted, hflight] at hout
          have hmem : wc ∈ (x.prefetcher.conn.cq.completeAll e.arrivals).completed := by
            rw [hc]
            exact List.mem_cons_self
          rcases CompletionQueue.mem_completed_completeAll hmem with hmem | hmem
          · rw [hcompleted] at hmem
            cases hmem
          · exact (he _ hmem).elim id (hnew hcompleted hflight _)
      refine ⟨wc.1, ?_, hpage⟩
      rw [hc, ← hsuccess]
      rfl

end Prefetcher

/-! ## Every path -/

theorem valid_run (inUse : List ℕ) (as : List FetchAction) (id : QueueId) :
    ((fetchMachine.run ⟨fun _ => .empty, inUse⟩ as).queues id).Valid := by
  have hstart : ∀ id, ((⟨fun _ => .empty, inUse⟩ : FetchState).queues id).Valid :=
    fun _ => SendQueue.valid_empty
  exact Machine.invariant (fun s => ∀ id, (s.queues id).Valid)
    (fun s a hs _ => (posts_step s a).valid hs) hstart
    (Machine.always_of_forall (fun _ _ => trivial) _ as) id

/-- In every state that a run of page fetches reaches, and for every set of
statuses that the NIC may report besides `IB_WC_SUCCESS`, the exact conditions
under which each fetch path, on all schedules, returns or records only pages
whose READ has finished with `IB_WC_SUCCESS`. -/
theorem fetched_pages_verified_iff (S : WCStatus → Prop) (inUse : List ℕ)
    (as : List FetchAction) :
    let queues := (fetchMachine.run ⟨fun _ => .empty, inUse⟩ as).queues
    (∀ useRc lookupPgTable remoteVa info env, lookupPgTable remoteVa ≠ none →
      env.postError = none →
      ((∀ polls, Reporting S polls → ReturnsVerified
        (readRemotePage useRc lookupPgTable queues remoteVa info ⟨env, polls⟩)) ↔
      Quiescent (queues (if useRc then .rc env.cpu info.macId else .dc env.cpu)) ∨
        FailsFirst (queues (if useRc then .rc env.cpu info.macId else .dc env.cpu)))) ∧
    (∀ lookupPgTable remoteVa info env src, lookupPgTable remoteVa = some src →
      PhysAddr.isPrefetch src = false → env.postError = none →
      ((∀ polls, Reporting S polls → ReturnsVerified
        (readRemotePagePrefetch lookupPgTable queues remoteVa info ⟨env, polls⟩)) ↔
      Quiescent (queues (.dc env.cpu)) ∧ ∀ st, S st → st = .success)) ∧
    (∀ lookupPgTable info addrs remoteVa env,
      ((∀ polls, Reporting S polls → BatchVerified
        (batchReadRemotePages lookupPgTable info polls queues (addrs ++ [(remoteVa, env)]))) ↔
      (∀ entry ∈ addrs, lookupPgTable entry.1 = none) ∧ (lookupPgTable remoteVa ≠ none →
        Quiescent (queues (.dc env.cpu)) ∧ ((∀ st, S st → st = .success) ∨
          env.postError ≠ none ∧ (queues (.dc env.cpu)).inFlight = [])))) ∧
    (∀ lookupPgTable info addrs remoteVa env polls,
      LastConfirms lookupPgTable info polls queues addrs remoteVa env →
      (∀ p ∈ polls, ∀ st ∈ p.1.arrivals, st = .success) → BatchVerified
        (batchReadRemotePages lookupPgTable info polls queues (addrs ++ [(remoteVa, env)]))) ∧
    (∀ (alloc : PageAllocator) (x₀ : Executor) (ops : List PrefetchOp),
      (∀ n, PhysAddr.bottomBit (alloc.page n) = false) →
      x₀.prefetcher = .newFromRaw .new x₀.prefetcher.accessInfo →
      let x := ops.foldl (PrefetchOp.apply alloc) x₀
      (PollVerified S x ↔
        (∀ c, x.prefetcher.conn.cq.completed.head? = some c → c.2 = .success) ∧
        (x.prefetcher.conn.cq.completed = [] → x.prefetcher.conn.cq.inFlight ≠ [] →
          ∀ st, S st → st = .success))) := by
  intro queues
  have hvalid : ∀ id, (queues id).Valid := valid_run inUse as
  refine ⟨?_, ?_, ?_, ?_, ?_⟩
  · intro useRc lookupPgTable remoteVa info env hmapped hpost
    exact readRemotePage_verified_iff hvalid hmapped hpost
  · intro lookupPgTable remoteVa info env src hsrc hremote hpost
    exact readRemotePagePrefetch_verified_iff hvalid hsrc hremote hpost
  · intro lookupPgTable info addrs remoteVa env
    exact batch_verified_iff hvalid
  · intro lookupPgTable info addrs remoteVa env polls hlast hpolls
    exact batchVerified_of_lastConfirms hvalid hpolls hlast
  · intro alloc x₀ ops halloc hnew x
    have hx₀ : Matched x₀ := by
      constructor
      · rw [hnew]
        rfl
      · rw [hnew]
        exact fun v hv => nomatch hv
    exact pollVerified_iff (hx₀.run halloc ops)

/-- The READ of a prefetching fault fails with `IB_WC_REM_ACCESS_ERR`: its page is
returned all the same. -/
theorem failed_read_is_returned :
    ¬ ReturnsVerified (readRemotePagePrefetch (fun _ => some 0x5000) (fun _ => .empty)
      ⟨0x1000, by decide⟩ ⟨0, 7, 1⟩ ⟨⟨0, 0x8000, none⟩, [(⟨[.remAccessErr], none⟩, 10)]⟩) := by
  intro h
  obtain ⟨r, hr, hfinished⟩ := h
    ⟨.dc 0, 0x8000, some ⟨0, some 0, 0x5000, 7, 0x8000, 4096⟩, .returned⟩ (by decide +kernel) rfl
  cases hr
  revert hfinished
  decide +kernel

end Mitosis.Fetch
