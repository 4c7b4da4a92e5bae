import Mitosis.RemotePaging.RemoteRead
import Mitosis.Support.Serialized

/-!
# Remote reads of several threads

The queue pair of a core serves the faults of every thread that runs on it; a thread may be
preempted, or moved to another core, between any two steps of its `remote_read`.  A DC queue
pair is locked for the whole call.  So the results are those of calls one after another, and
as long as none of them has failed, each call that returns has its own page.

Built with `use_rc` there is no lock.  A call then takes the oldest completion for its own
while other reads are outstanding, and can return before its page has arrived though nothing
has failed.
-/

namespace Mitosis.RemotePaging

open Mitosis.OsNetwork
open Mitosis.RemoteMapping (PhysAddr)
open Mitosis.Support

/-- The arguments of `remote_read`, and whether the driver refuses the post. -/
structure ReadArgs where
  dst : PhysAddr
  src : PhysAddr
  sz : ℕ
  accessInfo : AccessInfo
  postError : Option DatapathError
deriving DecidableEq

/-- What a poll meets: an error of the driver, and the time since the post. -/
abbrev PollEnv := Option DatapathError × ℤ

/-- The result of the wait, if it is over. -/
def pollResult : Poll WorkCompletion (TimeoutError Rdma.Err) →
    Option (Except Rdma.Err ReadRequest)
  | .ok (.ready wc) => some (readResult (.ok wc))
  | .ok .notReady => none
  | .error err => some (readResult (.error err))

/-- `remote_read` by its steps; the token is the serial of its own read. -/
def readSteps (useRc : Bool) :
    Stepped QueuePair ReadArgs ℕ (Except Rdma.Err ReadRequest) PollEnv WCStatus where
  tick := QueuePair.complete
  start qp args :=
    match RemoteDevice.read qp (endpointOf useRc args.accessInfo) (PhysAddr.decode args.src)
        args.accessInfo.rkey args.dst args.sz args.postError with
    | (qp', .error err) => (qp', qp.posted, some (.error (.datapathError err)))
    | (qp', .ok ()) => (qp', qp.posted, none)
  poll qp e :=
    let polled := Timeout.poll RemoteDevice.poll timeoutUsec qp (⟨[], e.1⟩, e.2)
    (polled.1, pollResult polled.2)

/-! ## Whole calls -/

/-- The call with what happens during it. -/
def ReadArgs.toCall (args : ReadArgs) (es : List (List WCStatus × PollEnv)) : ReadCall where
  dst := args.dst
  src := args.src
  sz := args.sz
  accessInfo := args.accessInfo
  postError := args.postError
  polls := es.map fun x => (⟨x.1, x.2.1⟩, x.2.2)

theorem foldl_complete (ts : List WCStatus) (qp : QueuePair) :
    ts.foldl QueuePair.complete qp = { qp with cq := qp.cq.completeAll ts } := by
  induction ts generalizing qp with
  | nil => rfl
  | cons t ts ih => exact ih _

theorem timeout_poll_arrivals (ts : List WCStatus) (qp : QueuePair) (e : PollEnv) :
    Timeout.poll RemoteDevice.poll timeoutUsec (ts.foldl QueuePair.complete qp) (⟨[], e.1⟩, e.2) =
      Timeout.poll RemoteDevice.poll timeoutUsec qp (⟨ts, e.1⟩, e.2) := by
  rw [foldl_complete]
  rfl

theorem polls_readSteps (useRc : Bool) (es : List (List WCStatus × PollEnv)) (qp : QueuePair) :
    (readSteps useRc).polls qp es =
      ((blockOn (Timeout.poll RemoteDevice.poll timeoutUsec) qp
          (es.map fun x => (⟨x.1, x.2.1⟩, x.2.2))).1,
        (blockOn (Timeout.poll RemoteDevice.poll timeoutUsec) qp
          (es.map fun x => (⟨x.1, x.2.1⟩, x.2.2))).2.map readResult) := by
  induction es generalizing qp with
  | nil => rfl
  | cons x es ih =>
    obtain ⟨ts, e⟩ := x
    have hpoll : (readSteps useRc).poll (ts.foldl (readSteps useRc).tick qp) e =
        ((Timeout.poll RemoteDevice.poll timeoutUsec qp (⟨ts, e.1⟩, e.2)).1,
          pollResult (Timeout.poll RemoteDevice.poll timeoutUsec qp (⟨ts, e.1⟩, e.2)).2) :=
      congrArg (fun w => (w.1, pollResult w.2)) (timeout_poll_arrivals ts qp e)
    rw [Stepped.polls, hpoll, List.map_cons, blockOn]
    rcases Timeout.poll RemoteDevice.poll timeoutUsec qp (⟨ts, e.1⟩, e.2) with
      ⟨qp', err | (wc | _)⟩
    · rfl
    · rfl
    · exact ih qp'

theorem call_readSteps (useRc : Bool) (qp : QueuePair) (args : ReadArgs) (es : List (List WCStatus × PollEnv)) :
    (readSteps useRc).call qp args es =
      ((remoteRead useRc qp (args.toCall es)).1, qp.posted,
        (remoteRead useRc qp (args.toCall es)).2) := by
  obtain ⟨dst, src, sz, accessInfo, _ | err⟩ := args
  · have hstart : (readSteps useRc).start qp ⟨dst, src, sz, accessInfo, none⟩ =
        (Conn.post qp (endpointOf useRc accessInfo) (PhysAddr.decode src) accessInfo.rkey dst sz,
          qp.posted, none) := rfl
    rw [Stepped.call, hstart]
    dsimp only
    rw [polls_readSteps]
    rfl
  · rfl

/-! ## The lock of a DC queue pair -/

abbrev ReadAction := LockedAction ReadArgs PollEnv WCStatus

/-- The calls of all threads on a DC queue pair. -/
abbrev dcReads : Machine (LockedState QueuePair ReadArgs ℕ) ReadAction
    (Option (Return ReadArgs ℕ (Except Rdma.Err ReadRequest))) :=
  lockedMachine (readSteps false)

/-- What has been returned in a run, with the serial of the own read. -/
def finished (o : Option ReadReport) : Option (ℕ × Except Rdma.Err ReadRequest) :=
  o.bind fun report => report.result.map fun r => (report.serial, r)

def AtomicAction.toQp : AtomicAction ReadArgs PollEnv WCStatus → QpAction
  | .tick status => .complete status
  | .call _ args es => .remoteRead (args.toCall es)

theorem qpMachine_step_toQp (qp : QueuePair) (b : AtomicAction ReadArgs PollEnv WCStatus) :
    ((qpMachine false).step qp (AtomicAction.toQp b)).1 =
        ((atomicMachine (readSteps false)).step qp b).1 ∧
      finished ((qpMachine false).step qp (AtomicAction.toQp b)).2 =
        ((atomicMachine (readSteps false)).step qp b).2.map fun r => (r.tok, r.res) := by
  cases b with
  | tick status => exact ⟨rfl, rfl⟩
  | call thread args es =>
    dsimp only [atomicMachine]
    rw [call_readSteps, Option.map_map]
    exact ⟨rfl, rfl⟩

/-- Whole calls of any threads are calls of one. -/
theorem qpMachine_toQp (bs : List (AtomicAction ReadArgs PollEnv WCStatus)) (qp : QueuePair) :
    (qpMachine false).run qp (bs.map AtomicAction.toQp) =
        (atomicMachine (readSteps false)).run qp bs ∧
      ((qpMachine false).outputs qp (bs.map AtomicAction.toQp)).filterMap finished =
        (((atomicMachine (readSteps false)).trace qp bs).filterMap Prod.snd).map
          fun r => (r.tok, r.res) := by
  induction bs generalizing qp with
  | nil => exact ⟨rfl, rfl⟩
  | cons b bs ih =>
    obtain ⟨hstate, hout⟩ := qpMachine_step_toQp qp b
    obtain ⟨hrun, houts⟩ := ih ((atomicMachine (readSteps false)).step qp b).1
    rw [List.map_cons, Machine.run_cons, Machine.outputs_cons, hstate, Machine.run_cons,
      Machine.trace, List.filterMap_cons, List.filterMap_cons, hout]
    refine ⟨hrun, ?_⟩
    cases ((atomicMachine (readSteps false)).step qp b).2 with
    | none => exact houts
    | some r => exact congrArg (List.cons _) houts

/-- In whatever order the threads take their steps, the calls on a DC queue pair return what
they return in a sequence of calls, in the order of their returns; and when no call is under
way the queue pair is left as after that sequence. -/
theorem dc_reads_serialize (as : List ReadAction) :
    ∃ actions : List QpAction,
      ((qpMachine false).outputs QueuePair.new actions).filterMap finished =
          ((dcReads.trace (.init QueuePair.new) as).filterMap Prod.snd).map
            (fun r => (r.tok, r.res)) ∧
        ((dcReads.run (.init QueuePair.new) as).holder = none →
          (qpMachine false).run QueuePair.new actions =
            (dcReads.run (.init QueuePair.new) as).shared) := by
  obtain ⟨bs, hserial, hreturns⟩ := exists_serialization (readSteps false) QueuePair.new as
  obtain ⟨hrun, houts⟩ := qpMachine_toQp bs QueuePair.new
  refine ⟨bs.map AtomicAction.toQp, ?_, fun hfree => ?_⟩
  · rw [houts, hreturns]
  · rw [Serializes, hfree] at hserial
    exact hrun.trans hserial.symm

/-! ## Calls that return with their own page -/

/-- The call has accepted the completion of its own read. -/
def OwnRead (r : Return ReadArgs ℕ (Except Rdma.Err ReadRequest)) : Prop :=
  ∀ read, r.res = .ok read → read.serial = r.tok

def Succeeded (r : Return ReadArgs ℕ (Except Rdma.Err ReadRequest)) : Prop :=
  ∃ read, r.res = .ok read

theorem isOk_iff_succeeded (r : Return ReadArgs ℕ (Except Rdma.Err ReadRequest)) :
    r.res.isOk = true ↔ Succeeded r := by
  unfold Succeeded
  cases r.res <;> simp [Except.isOk, Except.toBool]

instance : DecidablePred Succeeded := fun r => decidable_of_iff _ (isOk_iff_succeeded r)

/-- Only the read of the call that holds the lock is outstanding. -/
def OnlyHolder (s : LockedState QueuePair ReadArgs ℕ) : Prop :=
  s.shared.cq.outstanding.map ReadRequest.serial = (s.holder.bind Holder.started).toList

theorem poll_readSteps_cases (useRc : Bool) (qp : QueuePair) (e : PollEnv) :
    (∃ cq' err, cq'.outstanding ⊆ qp.cq.outstanding ∧
        (readSteps useRc).poll qp e = ({ qp with cq := cq' }, some (.error err))) ∨
      (readSteps useRc).poll qp e = (qp, none) ∨
      ∃ (wc : WorkCompletion) (cq' : CompletionQueue ReadRequest WCStatus),
        qp.cq.outstanding = wc.1 :: cq'.outstanding ∧
        (readSteps useRc).poll qp e = ({ qp with cq := cq' }, some (.ok wc.1)) := by
  have hpoll : (readSteps useRc).poll qp e =
      ((Timeout.poll RemoteDevice.poll timeoutUsec qp (⟨[], e.1⟩, e.2)).1,
        pollResult (Timeout.poll RemoteDevice.poll timeoutUsec qp (⟨[], e.1⟩, e.2)).2) := rfl
  rw [hpoll, Timeout.poll, RemoteDevice.poll]
  obtain ⟨err, -, hconn⟩ | ⟨-, hconn⟩ | ⟨wc, cq', -, hout, hconn⟩ := Conn.poll_cases qp ⟨[], e.1⟩
  · rw [hconn]
    exact .inl ⟨_, _, List.Subset.refl _, rfl⟩
  · rw [hconn]
    dsimp only [Delay.poll]
    split_ifs
    · exact .inl ⟨_, _, List.Subset.refl _, rfl⟩
    · exact .inr (.inl rfl)
  · rw [hconn]
    dsimp only
    split_ifs
    · exact .inr (.inr ⟨wc, cq', hout, rfl⟩)
    · exact .inl ⟨cq', _, hout ▸ List.subset_cons_self _ _, rfl⟩

/-- A step keeps this unless it returns a failure, and what it returns is of the own read. -/
def KeepsOwn (next : LockedState QueuePair ReadArgs ℕ ×
    Option (Return ReadArgs ℕ (Except Rdma.Err ReadRequest))) : Prop :=
  (∀ r ∈ next.2, OwnRead r) ∧ ((∀ r ∈ next.2, Succeeded r) → OnlyHolder next.1)

variable {s : LockedState QueuePair ReadArgs ℕ}

theorem keepsOwn_none (h : OnlyHolder s) :
    KeepsOwn (s, none) :=
  ⟨fun _ hr => absurd hr (Option.not_mem_none _), fun _ => h⟩

theorem keepsOwn_error (s : LockedState QueuePair ReadArgs ℕ) (thread : ℕ) (args : ReadArgs)
    (tok : ℕ) (err : Rdma.Err) : KeepsOwn (s, some ⟨thread, args, tok, .error err⟩) := by
  constructor
  · rintro r ⟨⟩ read hread
    cases hread
  · intro h
    obtain ⟨read, hread⟩ := h _ rfl
    cases hread

theorem keepsOwn_start (h : OnlyHolder s) :
    KeepsOwn (dcReads.step s .start) := by
  obtain ⟨qp, _ | ⟨thread, args, _ | tok⟩, waiting⟩ := s
  · exact keepsOwn_none h
  · obtain ⟨dst, src, sz, accessInfo, _ | err⟩ := args
    · refine keepsOwn_none ?_
      have hnil : qp.cq.outstanding = [] := List.map_eq_nil_iff.mp h
      change (qp.cq.post _).outstanding.map _ = _
      rw [CompletionQueue.outstanding_post, hnil]
      rfl
    · exact keepsOwn_error ..
  · exact keepsOwn_none h

theorem keepsOwn_poll (h : OnlyHolder s) (e : PollEnv) :
    KeepsOwn (dcReads.step s (.poll e)) := by
  obtain ⟨qp, _ | ⟨thread, args, _ | tok⟩, waiting⟩ := s
  · exact keepsOwn_none h
  · exact keepsOwn_none h
  · dsimp only [dcReads, lockedMachine]
    obtain ⟨cq', err, -, hpoll⟩ | hpoll | ⟨wc, cq', hout, hpoll⟩ :=
      poll_readSteps_cases false qp e
    · rw [hpoll]
      exact keepsOwn_error ..
    · rw [hpoll]
      exact keepsOwn_none h
    · rw [hpoll]
      -- The oldest outstanding read is the only one.
      have honly : wc.1.serial :: cq'.outstanding.map ReadRequest.serial = [tok] := by
        rw [← show qp.cq.outstanding.map ReadRequest.serial = [tok] from h, hout, List.map_cons]
      obtain ⟨hserial, hrest⟩ := List.cons.inj honly
      constructor
      · rintro r ⟨⟩ read ⟨⟩
        exact hserial
      · exact fun _ => hrest

theorem keepsOwn_step (h : OnlyHolder s) (a : ReadAction) :
    KeepsOwn (dcReads.step s a) := by
  cases a with
  | call thread args => exact keepsOwn_none h
  | start => exact keepsOwn_start h
  | poll e => exact keepsOwn_poll h e
  | acquire thread =>
    obtain ⟨qp, _ | holder, waiting⟩ := s
    · dsimp only [dcReads, lockedMachine]
      cases waiting thread with
      | none => exact keepsOwn_none h
      | some args => exact keepsOwn_none h
    · exact keepsOwn_none h
  | tick status =>
    refine keepsOwn_none ?_
    change (s.shared.cq.complete status).outstanding.map _ = _
    rw [CompletionQueue.outstanding_complete]
    exact h

/-- On a DC queue pair, in whatever order any number of threads take their steps: as long as no
call has failed, every call that has returned has accepted the completion of its own read. -/
theorem dc_reads_own (as : List ReadAction)
    (hok : ∀ x ∈ dcReads.trace (.init QueuePair.new) as, ∀ r ∈ x.2, Succeeded r) :
    ∀ x ∈ dcReads.trace (.init QueuePair.new) as, ∀ r ∈ x.2, OwnRead r := by
  have hinv : (∀ x ∈ dcReads.trace (.init QueuePair.new) as, ∀ r ∈ x.2, Succeeded r) →
      OnlyHolder (dcReads.run (.init QueuePair.new) as) ∧
        ∀ x ∈ dcReads.trace (.init QueuePair.new) as, ∀ r ∈ x.2, OwnRead r := by
    refine Machine.trace_induction (M := dcReads) (s := .init QueuePair.new)
      (fun s tr => (∀ x ∈ tr, ∀ r ∈ x.2, Succeeded r) →
        OnlyHolder s ∧ ∀ x ∈ tr, ∀ r ∈ x.2, OwnRead r) ?_ ?_ as
    · exact fun _ => ⟨rfl, fun x hx => absurd hx List.not_mem_nil⟩
    · intro s tr a ih hall
      obtain ⟨honly, hown⟩ := ih fun x hx => hall x (List.mem_append_left _ hx)
      obtain ⟨hret, hkeep⟩ := keepsOwn_step honly a
      refine ⟨hkeep (hall _ (List.mem_append_right _ (List.mem_singleton.mpr rfl))), ?_⟩
      intro x hx
      obtain hold | hnew := List.mem_append.mp hx
      · exact hown x hold
      · rw [List.mem_singleton.mp hnew]
        exact hret
  exact (hinv hok).2

/-- The arguments of a call for a page. -/
def sampleArgs (dst : PhysAddr) : ReadArgs := ⟨dst, 0, 4096, ⟨0, 0, 0⟩, none⟩

/-- Thread 1 comes before thread 0, and has to poll twice. -/
def sampleReads : List ReadAction :=
  [.call 0 (sampleArgs 0x1000), .call 1 (sampleArgs 0x2000), .acquire 1, .acquire 0, .start,
    .poll (none, 5), .tick .success, .poll (none, 9), .acquire 0, .start, .tick .success,
    .poll (none, 7)]

theorem dc_reads_own_two_threads :
    (((dcReads.trace (.init QueuePair.new) sampleReads).filterMap Prod.snd).map Return.thread =
        [1, 0]) ∧
      ∀ x ∈ dcReads.trace (.init QueuePair.new) sampleReads, ∀ r ∈ x.2, OwnRead r :=
  ⟨by decide, dc_reads_own sampleReads (by decide)⟩

/-! ## Reliable connections have no lock -/

abbrev RcReadAction := UnlockedAction ReadArgs PollEnv WCStatus

/-- The calls of all threads on the connection of a core to a machine. -/
abbrev rcReads : Machine (UnlockedState QueuePair ReadArgs ℕ) RcReadAction
    (Option (Return ReadArgs ℕ (Except Rdma.Err ReadRequest))) :=
  unlockedMachine (readSteps true)

variable {read : ReadRequest} {rest : List WorkCompletion}

theorem numbered_rcReads_step (s : UnlockedState QueuePair ReadArgs ℕ) (a : RcReadAction)
    (h : s.shared.Numbered) : (rcReads.step s a).1.shared.Numbered := by
  cases a with
  | call thread args =>
    dsimp only [rcReads, unlockedMachine]
    split <;> exact h
  | start thread =>
    dsimp only [rcReads, unlockedMachine]
    split
    · next args _ =>
        obtain ⟨dst, src, sz, accessInfo, _ | err⟩ := args
        · intro r hr
          change r ∈ (s.shared.cq.post _).outstanding at hr
          rw [CompletionQueue.outstanding_post, List.mem_append, List.mem_singleton] at hr
          obtain hold | rfl := hr
          · exact Nat.lt_succ_of_lt (h r hold)
          · exact Nat.lt_succ_self _
        · exact h
    · exact h
  | poll thread e =>
    dsimp only [rcReads, unlockedMachine]
    split
    · obtain ⟨cq', err, hout, hpoll⟩ | hpoll | ⟨wc, cq', hout, hpoll⟩ :=
        poll_readSteps_cases true s.shared e
      · rw [hpoll]
        exact fun r hr => h r (hout hr)
      · rw [hpoll]
        exact h
      · rw [hpoll]
        exact fun r hr => h r (hout ▸ List.mem_cons_of_mem _ hr)
    · exact h
  | tick status =>
    intro r hr
    change r ∈ (s.shared.cq.complete status).outstanding at hr
    rw [CompletionQueue.outstanding_complete] at hr
    exact h r hr

theorem numbered_rcReads (as : List RcReadAction) :
    (rcReads.run (.init QueuePair.new) as).shared.Numbered := by
  have hall : rcReads.Always (fun _ _ => True) (.init QueuePair.new) as :=
    Machine.always_of_forall (fun _ _ => trivial) _ _
  have hnew : QueuePair.new.Numbered := fun r hr => absurd hr List.not_mem_nil
  exact Machine.invariant (fun s => s.shared.Numbered)
    (fun s a h _ => numbered_rcReads_step s a h) hnew hall

/-- A poll takes a successful completion, whosever it is. -/
theorem poll_readSteps_success {useRc : Bool} {qp : QueuePair}
    (h : qp.cq.completed = (read, .success) :: rest) :
    (readSteps useRc).poll qp (none, 0) =
      ({ qp with cq := ⟨rest, qp.cq.inFlight⟩ }, some (.ok read)) := by
  have hpoll : Timeout.poll RemoteDevice.poll timeoutUsec qp (⟨[], none⟩, 0) =
      ({ qp with cq := ⟨rest, qp.cq.inFlight⟩ }, .ok (.ready (read, .success))) := by
    rw [Timeout.poll, RemoteDevice.poll, Conn.poll]
    dsimp only [CompletionQueue.completeAll, List.foldl_nil]
    rw [CompletionQueue.poll_of_cons h]
    rfl
  exact congrArg (fun w => (w.1, pollResult w.2)) hpoll

/-- The call has returned, and its own read has not. -/
def ReturnsEarly (s : UnlockedState QueuePair ReadArgs ℕ) (thread : ℕ) (args : ReadArgs)
    (bs : List RcReadAction) : Prop :=
  ∃ read, read.serial ≠ s.shared.posted ∧
    (∃ b, (b, some ⟨thread, args, s.shared.posted, .ok read⟩) ∈ rcReads.trace s bs) ∧
    ownRead true s.shared (args.toCall []) ∈ (rcReads.run s bs).shared.cq.inFlight

/-- Nothing fails in these steps. -/
def NoFailures (bs : List RcReadAction) : Prop :=
  ∀ b ∈ bs, (∀ status, b = .tick status → status = .success) ∧
    ∀ thread e, b = .poll thread e → e = (none, 0)

section Early

variable {qp : QueuePair} {calls : ℕ → Option (ReadArgs × Option ℕ)} {thread : ℕ} {args : ReadArgs}

theorem run_call_start (qp : QueuePair) (hidle : calls thread = none) (hargs : args.postError = none) :
    rcReads.run ⟨qp, calls⟩ [.call thread args, .start thread] =
      ⟨posted true qp (args.toCall []), Function.update calls thread (some (args, some qp.posted))⟩ := by
  obtain ⟨dst, src, sz, accessInfo, _ | err⟩ := args
  · rw [Machine.run_cons, Machine.run_cons, Machine.run_nil]
    simp only [rcReads, unlockedMachine, hidle, Function.update_self]
    simp only [readSteps, RemoteDevice.read, Function.update_idem]
    rfl
  · cases hargs

theorem step_poll_success {tok : ℕ}
    (hcall : calls thread = some (args, some tok))
    (h : qp.cq.completed = (read, .success) :: rest) :
    rcReads.step ⟨qp, calls⟩ (.poll thread (none, 0)) =
      (⟨{ qp with cq := ⟨rest, qp.cq.inFlight⟩ }, Function.update calls thread none⟩,
        some ⟨thread, args, tok, .ok read⟩) := by
  dsimp only [rcReads, unlockedMachine]
  rw [hcall]
  dsimp only
  rw [poll_readSteps_success h]

theorem returnsEarly_concat {s : UnlockedState QueuePair ReadArgs ℕ} {pre : List RcReadAction}
    (hrun : rcReads.run s pre = ⟨qp, calls⟩)
    (hcall : calls thread = some (args, some s.shared.posted))
    (hcompleted : qp.cq.completed = (read, .success) :: rest)
    (hread : read.serial < s.shared.posted)
    (hown : ownRead true s.shared (args.toCall []) ∈ qp.cq.inFlight) :
    ReturnsEarly s thread args (pre ++ [.poll thread (none, 0)]) := by
  have hstep := step_poll_success hcall hcompleted
  refine ⟨read, hread.ne, ⟨.poll thread (none, 0), ?_⟩, ?_⟩
  · rw [Machine.trace_concat, hrun, hstep]
    exact List.mem_append_right _ (List.mem_singleton.mpr rfl)
  · rw [Machine.run_concat, hrun, hstep]
    exact hown

end Early

/-- Built with `use_rc`: in whatever order the threads have taken their steps, while a read is
outstanding on a connection, any other call on it may return before its page has arrived,
though nothing fails. -/
theorem rc_reads_early (as : List RcReadAction) (thread : ℕ) (args : ReadArgs)
    (hidle : (rcReads.run (.init QueuePair.new) as).calls thread = none)
    (hargs : args.postError = none)
    (hout : (rcReads.run (.init QueuePair.new) as).shared.cq.outstanding ≠ [])
    (hok : ∀ wc ∈ (rcReads.run (.init QueuePair.new) as).shared.cq.completed, wc.2 = .success) :
    ∃ bs, NoFailures bs ∧ ReturnsEarly (rcReads.run (.init QueuePair.new) as) thread args bs := by
  have hnumbered := numbered_rcReads as
  generalize rcReads.run (.init QueuePair.new) as = s at *
  obtain ⟨qp, calls⟩ := s
  dsimp only at hidle hout hok hnumbered
  have hstart := run_call_start qp hidle hargs
  have hcall := Function.update_self thread (some (args, some qp.posted)) calls
  -- The oldest outstanding read has completed, or completes behind the post.
  cases hc : qp.cq.completed with
  | cons wc rest =>
    obtain ⟨read, status⟩ := wc
    obtain rfl : status = .success := hok _ (hc ▸ List.mem_cons_self)
    refine ⟨[.call thread args, .start thread, .poll thread (none, 0)], ?_,
      returnsEarly_concat hstart hcall hc (hnumbered read ?_) ?_⟩
    · simp [NoFailures]
    · simp [CompletionQueue.outstanding, hc]
    · exact List.mem_append_right _ (List.mem_singleton.mpr rfl)
  | nil =>
    have hflying : qp.cq.inFlight ≠ [] := fun hnil =>
      hout (by rw [CompletionQueue.outstanding, hc, hnil]; rfl)
    obtain ⟨read, later, hflight⟩ := List.exists_cons_of_ne_nil hflying
    have hcomplete : (posted true qp (args.toCall [])).complete .success =
        ⟨qp.posted + 1, ⟨[(read, .success)], later ++ [ownRead true qp (args.toCall [])]⟩⟩ := by
      simp [QueuePair.complete, posted, CompletionQueue.complete, CompletionQueue.post, hc, hflight]
    have htick : rcReads.run ⟨qp, calls⟩ ([.call thread args, .start thread] ++ [.tick .success]) =
        ⟨⟨qp.posted + 1, ⟨[(read, .success)], later ++ [ownRead true qp (args.toCall [])]⟩⟩,
          Function.update calls thread (some (args, some qp.posted))⟩ := by
      rw [Machine.run_concat, hstart, ← hcomplete]
      rfl
    refine ⟨[.call thread args, .start thread, .tick .success, .poll thread (none, 0)], ?_,
      returnsEarly_concat htick hcall rfl (hnumbered read ?_) ?_⟩
    · simp [NoFailures]
    · simp [CompletionQueue.outstanding, hc, hflight]
    · exact List.mem_append_right _ (List.mem_singleton.mpr rfl)

/-- Thread 0 waits for its page when thread 1 calls. -/
theorem rc_reads_early_two_threads :
    ∃ bs, NoFailures bs ∧ ReturnsEarly
      (rcReads.run (.init QueuePair.new) [.call 0 (sampleArgs 0x1000), .start 0]) 1
      (sampleArgs 0x2000) bs :=
  rc_reads_early [.call 0 (sampleArgs 0x1000), .start 0] 1 (sampleArgs 0x2000) rfl rfl (by decide)
    (by decide)

end Mitosis.RemotePaging
