import Mitosis.OsNetwork.Rdma
import Mitosis.Support.Machine

/-!
# Remote reads over one queue pair

`remote_read` posts one READ on the queue pair of the core and waits for a
completion for at most `TIMEOUT_USEC`.  It takes the oldest completion of the
queue for its own: a call that gave up leaves the completion of its read
behind, and a later call can accept that one before its own page arrived.

A run is a sequence of calls with completions arriving at any time between and
during them.  The main theorem says in which states a call can only accept the
completion of its own read.
-/

namespace Mitosis.RemotePaging

open Mitosis.OsNetwork
open Mitosis.RemoteMapping (PhysAddr)
open Mitosis.Support

/-- How long `remote_read` waits, in microseconds. -/
def timeoutUsec : ℤ := 1000000

/-- What a child keeps to reach the memory of its parent. -/
structure AccessInfo where
  accessHandler : ℕ
  rkey : ℕ
  macId : ℕ
deriving DecidableEq, Repr

/-- One call with what the outside world does during it: whether the driver
refuses the post, and at each poll the arrivals, an error and the timer. -/
structure ReadCall where
  dst : PhysAddr
  src : PhysAddr
  sz : ℕ
  accessInfo : AccessInfo
  postError : Option DatapathError
  polls : List (CqEvent × ℤ)
deriving DecidableEq, Repr

/-- Where the READ goes: a DC queue pair names the endpoint in the request, an
RC queue pair is connected to it. -/
def endpointOf (useRc : Bool) (accessInfo : AccessInfo) : Option ℕ :=
  if useRc then none else some accessInfo.accessHandler

/-- What a call makes of the end of its wait: an elapsed timer is reported as a
data-path error. -/
def readResult :
    Except (TimeoutError Rdma.Err) WorkCompletion → Except Rdma.Err ReadRequest
  | .ok wc => .ok wc.1
  | .error .elapsed => .error (.datapathError .timeoutError)
  | .error (.inner err) => .error err

/-- Read the remote page `src` to `dst`.  An `ok` result names the read whose
completion was accepted; there is no result while the call is waiting. -/
def remoteRead (useRc : Bool) (qp : QueuePair) (call : ReadCall) :
    QueuePair × Option (Except Rdma.Err ReadRequest) :=
  match RemoteDevice.read qp (endpointOf useRc call.accessInfo)
      (PhysAddr.decode call.src) call.accessInfo.rkey call.dst call.sz
      call.postError with
  | (qp', .error err) => (qp', some (.error (.datapathError err)))
  | (qp', .ok ()) =>
    -- wait for the request to complete
    let waited := blockOn (Timeout.poll RemoteDevice.poll timeoutUsec) qp' call.polls
    (waited.1, waited.2.map readResult)

/-! ## Runs -/

inductive QpAction where
  | complete (status : WCStatus)
  | remoteRead (call : ReadCall)
deriving DecidableEq, Repr

/-- The result of a call, with the serial of the read that call posts. -/
structure ReadReport where
  serial : ℕ
  result : Option (Except Rdma.Err ReadRequest)
deriving DecidableEq, Repr

/-- If the call returned `ok`, it accepted the completion of its own read. -/
def ReadReport.Own (report : ReadReport) : Prop :=
  ∀ r, report.result = some (.ok r) → r.serial = report.serial

def qpMachine (useRc : Bool) : Machine QueuePair QpAction (Option ReadReport) where
  step qp
    | .complete status => (qp.complete status, none)
    | .remoteRead call =>
      ((remoteRead useRc qp call).1,
        some ⟨qp.posted, (remoteRead useRc qp call).2⟩)

/-- A call cannot meet the successful completion of an earlier read: nothing is
outstanding, or the completion it will find first has an error status. -/
def NoStaleSuccess (qp : QueuePair) : Prop :=
  (qp.cq.completed = [] → qp.cq.inFlight = []) ∧
  ∀ wc ∈ qp.cq.completed.head?, wc.2 ≠ .success

instance (qp : QueuePair) : Decidable (NoStaleSuccess qp) :=
  inferInstanceAs (Decidable (_ ∧ _))

/-- The condition on a step of a run: calls are made only in such states. -/
def CallsClean (qp : QueuePair) : QpAction → Prop
  | .complete _ => True
  | .remoteRead _ => NoStaleSuccess qp

/-! ## Waiting for a completion -/

section Waiting

variable {useRc : Bool} {qp : QueuePair} {call : ReadCall}

def ownRead (useRc : Bool) (qp : QueuePair) (call : ReadCall) : ReadRequest where
  serial := qp.posted
  endpoint := endpointOf useRc call.accessInfo
  raddr := PhysAddr.decode call.src
  rkey := call.accessInfo.rkey
  laddr := call.dst
  size := call.sz

/-- The queue pair after the READ of a call was posted. -/
def posted (useRc : Bool) (qp : QueuePair) (call : ReadCall) : QueuePair where
  posted := qp.posted + 1
  cq := qp.cq.post (ownRead useRc qp call)

/-- What holds after the post and at every fruitless poll, and what a poll that
ends the wait establishes, give the result of the call. -/
theorem remoteRead_rule {I : QueuePair → Prop}
    {Q : QueuePair → Except Rdma.Err ReadRequest → Prop}
    (hrefused : ∀ err, Q qp (.error (.datapathError err)))
    (hpost : I (posted useRc qp call))
    (hpoll : ∀ qp e, I qp →
      Polled I (fun qp r => Q qp (r.map Prod.fst)) (RemoteDevice.poll qp e))
    (helapsed : ∀ qp, I qp → Q qp (.error (.datapathError .timeoutError))) :
    Waited I Q (remoteRead useRc qp call) := by
  have hwait : Waited I (fun qp r => Q qp (readResult r))
      (blockOn (Timeout.poll RemoteDevice.poll timeoutUsec)
        (posted useRc qp call) call.polls) :=
    waited_blockOn
      (fun qp e hqp => polled_timeout (hpoll qp e.1 hqp)
        (fun _ _ h => h) (fun _ _ h => h) helapsed)
      call.polls hpost
  unfold remoteRead RemoteDevice.read
  cases call.postError with
  | some err => exact hrefused err
  | none => exact hwait.map

theorem numbered_remoteRead (h : qp.Numbered) :
    (remoteRead useRc qp call).1.Numbered := by
  have hrule : Waited QueuePair.Numbered (fun qp _ => qp.Numbered)
      (remoteRead useRc qp call) := by
    refine remoteRead_rule (fun _ => h) ?_ ?_ fun _ h => h
    · intro r hr
      rw [posted, CompletionQueue.outstanding_post, List.mem_append,
        List.mem_singleton] at hr
      rcases hr with hr | rfl
      · exact Nat.lt_succ_of_lt (h r hr)
      · exact Nat.lt_succ_self _
    · intro qp e hqp
      have harrived : QueuePair.Numbered
          { qp with cq := qp.cq.completeAll e.arrivals } := by
        simpa [QueuePair.Numbered] using hqp
      refine RemoteDevice.polled harrived (fun _ => harrived) ?_
      intro wc cq' _ hout r hr
      exact hqp r (by rw [hout]; exact List.mem_cons_of_mem _ hr)
  exact hrule.state fun _ h => h

theorem own_of_outstanding_nil (h : qp.cq.outstanding = []) :
    ReadReport.Own ⟨qp.posted, (remoteRead useRc qp call).2⟩ := by
  have hrule : Waited (fun qp' => qp'.cq.outstanding = [ownRead useRc qp call])
      (fun _ res => ∀ r, res = .ok r → r = ownRead useRc qp call)
      (remoteRead useRc qp call) := by
    refine remoteRead_rule (fun _ _ hr => by cases hr) ?_ ?_
      fun _ _ _ hr => by cases hr
    · rw [posted, CompletionQueue.outstanding_post, h, List.nil_append]
    · intro qp' e hown
      refine RemoteDevice.polled ?_ (fun _ _ hr => by cases hr) ?_
      · rw [CompletionQueue.outstanding_completeAll, hown]
      · intro wc cq' _ hout r hr
        rw [hown] at hout
        split at hr
        · cases hr
          exact (List.cons.inj hout).1.symm
        · cases hr
  intro r hr
  rw [hrule.result hr r rfl]
  rfl

theorem own_of_failed_head {wc : WorkCompletion} {rest : List WorkCompletion}
    (h : qp.cq.completed = wc :: rest) (hwc : wc.2 ≠ .success) :
    ReadReport.Own ⟨qp.posted, (remoteRead useRc qp call).2⟩ := by
  have hrule : Waited (fun qp' => [wc] <+: qp'.cq.completed)
      (fun _ res => ∀ r, res ≠ .ok r) (remoteRead useRc qp call) := by
    refine remoteRead_rule (fun _ _ hr => by cases hr) ?_ ?_
      fun _ _ _ hr => by cases hr
    · rw [posted, CompletionQueue.completed_post, h]
      exact ⟨rest, rfl⟩
    · intro qp' e hqp'
      have harrived := hqp'.trans (qp'.cq.completed_prefix_completeAll e.arrivals)
      refine RemoteDevice.polled harrived (fun _ _ hr => by cases hr) ?_
      intro wc' cq' hfirst _ r hr
      rw [hfirst] at harrived
      obtain ⟨_, heq⟩ := harrived
      obtain ⟨rfl, -⟩ := List.cons.inj heq
      rw [if_neg hwc] at hr
      cases hr
  intro r hr
  exact absurd rfl (hrule.result hr r)

end Waiting

/-! ## Which calls are safe -/

variable {useRc : Bool} {qp : QueuePair}

theorem own_of_noStaleSuccess (h : NoStaleSuccess qp) (call : ReadCall) :
    ReadReport.Own ⟨qp.posted, (remoteRead useRc qp call).2⟩ := by
  obtain ⟨hquiet, hhead⟩ := h
  cases hc : qp.cq.completed with
  | nil =>
    have hout : qp.cq.outstanding = [] := by
      simp [CompletionQueue.outstanding, hc, hquiet hc]
    exact own_of_outstanding_nil hout
  | cons wc rest => exact own_of_failed_head hc (hhead wc (by simp [hc]))

/-- In any other state some arrivals put the successful completion of an
earlier read in front of the queue. -/
theorem exists_arrivals_stale (h : ¬ NoStaleSuccess qp)
    (own : ReadRequest) :
    ∃ arrivals r rest, r ∈ qp.cq.outstanding ∧
      ((qp.cq.post own).completeAll arrivals).completed = (r, .success) :: rest := by
  cases hc : qp.cq.completed with
  | nil =>
    have hne : qp.cq.inFlight ≠ [] := fun hflight =>
      h ⟨fun _ => hflight, by simp [hc]⟩
    obtain ⟨r, later, hflight⟩ := List.exists_cons_of_ne_nil hne
    refine ⟨[.success], r, [], ?_, ?_⟩
    · simp [CompletionQueue.outstanding, hc, hflight]
    · simp [CompletionQueue.completeAll, CompletionQueue.complete,
        CompletionQueue.post, hc, hflight]
  | cons wc rest =>
    obtain ⟨r, status⟩ := wc
    obtain rfl : status = .success := by
      by_contra hstatus
      exact h ⟨by simp [hc], by simpa [hc] using hstatus⟩
    refine ⟨[], r, rest, ?_, hc⟩
    simp [CompletionQueue.outstanding, hc]

theorem remoteRead_of_first {call : ReadCall}
    {arrivals : List WCStatus} {r : ReadRequest} {rest : List WorkCompletion}
    (hpost : call.postError = none) (hpolls : call.polls = [(⟨arrivals, none⟩, 0)])
    (hfirst : ((qp.cq.post (ownRead useRc qp call)).completeAll arrivals).completed =
      (r, .success) :: rest) :
    (remoteRead useRc qp call).2 = some (.ok r) := by
  have hpoll := CompletionQueue.poll_of_cons hfirst
  unfold ownRead at hpoll
  simp [remoteRead, RemoteDevice.read, Conn.post, hpost, hpolls, blockOn, Timeout.poll,
    RemoteDevice.poll, Conn.poll, hpoll, readResult]

/-- A single call of one page, polling once. -/
def probe (arrivals : List WCStatus) : ReadCall where
  dst := 0
  src := 0
  sz := 4096
  accessInfo := ⟨0, 0, 0⟩
  postError := none
  polls := [(⟨arrivals, none⟩, 0)]

theorem noStaleSuccess_of_own (hn : qp.Numbered)
    (h : ∀ call, ReadReport.Own ⟨qp.posted, (remoteRead useRc qp call).2⟩) :
    NoStaleSuccess qp := by
  by_contra hstale
  obtain ⟨arrivals, r, rest, hr, hfirst⟩ :=
    exists_arrivals_stale hstale (ownRead useRc qp (probe []))
  -- the request does not depend on what happens during the call
  have hok : (remoteRead useRc qp (probe arrivals)).2 = some (.ok r) :=
    remoteRead_of_first rfl rfl hfirst
  have hserial : r.serial = qp.posted := h (probe arrivals) r hok
  exact absurd (hn r hr) (by rw [hserial]; exact lt_irrefl _)

theorem numbered_run (useRc : Bool) (actions : List QpAction) :
    ((qpMachine useRc).run QueuePair.new actions).Numbered := by
  have hstep : ∀ qp a, QueuePair.Numbered qp → True →
      QueuePair.Numbered ((qpMachine useRc).step qp a).1 := by
    intro qp a hqp _
    cases a with
    | complete status => simpa [qpMachine, QueuePair.complete, QueuePair.Numbered] using hqp
    | remoteRead call => exact numbered_remoteRead hqp
  have hnew : QueuePair.new.Numbered := by simp [QueuePair.new, QueuePair.Numbered]
  exact Machine.invariant (fun qp : QueuePair => qp.Numbered) hstep hnew
    (Machine.always_of_forall (fun _ _ => trivial) _ actions)

/-- Every call of a run whose calls are all made in clean states accepts only
its own completion. -/
theorem own_outputs {actions : List QpAction}
    (h : (qpMachine useRc).Always CallsClean qp actions) :
    ∀ report, some report ∈ (qpMachine useRc).outputs qp actions → report.Own := by
  intro report hmem
  refine Machine.outputs_of_invariant (fun _ => True)
    (fun o => ∀ report, o = some report → report.Own) ?_ trivial h _ hmem report rfl
  intro qp a _ ha
  refine ⟨trivial, ?_⟩
  cases a with
  | complete status => simp [qpMachine]
  | remoteRead call =>
    rintro report ⟨⟩
    exact own_of_noStaleSuccess ha call

/-- On a queue pair shared by a sequence of calls, `remote_read` accepts only
the completion of its own read in every run whose calls are made while no
successful completion of an earlier read can be met; and this is the exact
condition: in any other reachable state some schedule makes the next call
return `ok` on the completion of an earlier read. -/
theorem remoteRead_own_iff_noStaleSuccess (useRc : Bool) :
    (∀ actions, (qpMachine useRc).Always CallsClean QueuePair.new actions →
      ∀ report, some report ∈ (qpMachine useRc).outputs QueuePair.new actions →
        report.Own) ∧
    ∀ actions, (∀ call report,
        ((qpMachine useRc).step ((qpMachine useRc).run QueuePair.new actions)
          (.remoteRead call)).2 = some report → report.Own) ↔
      NoStaleSuccess ((qpMachine useRc).run QueuePair.new actions) := by
  refine ⟨fun _ h => own_outputs h, fun actions => ⟨fun h => ?_, fun h => ?_⟩⟩
  · exact noStaleSuccess_of_own (numbered_run useRc actions) fun call => h call _ rfl
  · rintro call report hreport
    cases hreport
    exact own_of_noStaleSuccess h call

/-- Reading the page at `src` to `dst` with the given polls. -/
def readPage (src dst : PhysAddr) (polls : List (CqEvent × ℤ)) : ReadCall where
  dst := dst
  src := src
  sz := 4096
  accessInfo := ⟨0, 7, 1⟩
  postError := none
  polls := polls

/-- Two calls whose completions arrive in time. -/
theorem remoteRead_own_iff_noStaleSuccess_twice :
    let calls : List QpAction :=
      [.remoteRead (readPage 0x1000 0x5000 [(⟨[], none⟩, 10), (⟨[.success], none⟩, 20)]),
        .remoteRead (readPage 0x2000 0x6000 [(⟨[.success], none⟩, 10)])]
    (qpMachine false).outputs QueuePair.new calls =
      [some ⟨0, some (.ok ⟨0, some 0, 0x1000, 7, 0x5000, 4096⟩)⟩,
        some ⟨1, some (.ok ⟨1, some 0, 0x2000, 7, 0x6000, 4096⟩)⟩] ∧
    ∀ report, some report ∈ (qpMachine false).outputs QueuePair.new calls →
      report.Own := by
  refine ⟨by decide +kernel, ?_⟩
  exact (remoteRead_own_iff_noStaleSuccess false).1 _
    ⟨(by decide +kernel : NoStaleSuccess _), (by decide +kernel : NoStaleSuccess _), trivial⟩

/-- The first call gives up after a second; the completion of its read then
makes the second call return `ok` for a page that was not read yet. -/
theorem late_completion_answers_next_call :
    let calls : List QpAction :=
      [.remoteRead (readPage 0x1000 0x5000 [(⟨[], none⟩, 1000000)]),
        .remoteRead (readPage 0x2000 0x6000 [(⟨[.success], none⟩, 10)])]
    let stale : ReadReport := ⟨1, some (.ok ⟨0, some 0, 0x1000, 7, 0x5000, 4096⟩)⟩
    (qpMachine false).outputs QueuePair.new calls =
      [some ⟨0, some (.error (.datapathError .timeoutError))⟩, some stale] ∧
    ¬ stale.Own := by
  refine ⟨by decide +kernel, fun h => ?_⟩
  exact absurd (h _ rfl) (by decide)

end Mitosis.RemotePaging
