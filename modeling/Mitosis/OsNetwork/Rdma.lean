import Mitosis.OsNetwork.Future
import Mitosis.RemoteMapping.PhysAddr
import Mitosis.Support.CompletionQueue

/-!
# One-sided reads on a queue pair

The DC and RC devices post signaled READs on the queue pair of a connection and
poll its send completion queue one completion at a time.  A device is a clone
of the connection: every device made from it polls the same queue.  The serial
of a request is its place in posting order; no source function looks at it.
-/

namespace Mitosis.OsNetwork

open Mitosis.RemoteMapping (PhysAddr)
open Mitosis.Support

inductive WCStatus where
  | success
  | locLenErr
  | locQpOpErr
  | locEecOpErr
  | locProtErr
  | wrFlushErr
  | mwBindErr
  | badRespErr
  | locAccessErr
  | remInvReqErr
  | remAccessErr
  | remOpErr
  | retryExcErr
  | rnrRetryExcErr
  | locRddViolErr
  | remInvRdReqErr
  | remAbortErr
  | invEecnErr
  | invEecStateErr
  | fatalErr
  | respTimeoutErr
  | generalErr
deriving DecidableEq, Repr

/-- An error of the data path: a timeout, or one of the driver's own. -/
inductive DatapathError where
  | timeoutError
  | driver (code : ℕ)
deriving DecidableEq, Repr

namespace Rdma

inductive Err where
  | datapathError (error : DatapathError)
  | wcErr (status : WCStatus)
deriving DecidableEq, Repr

end Rdma

/-- A READ of `size` bytes from the remote address to the local one. -/
structure ReadRequest where
  serial : ℕ
  endpoint : Option ℕ
  raddr : PhysAddr
  rkey : ℕ
  laddr : PhysAddr
  size : ℕ
deriving DecidableEq, Repr

/-- A polled work completion: the request it answers and its status. -/
abbrev WorkCompletion := ReadRequest × WCStatus

/-- A queue pair: how many reads were posted and its send completion queue. -/
structure QueuePair where
  posted : ℕ
  cq : CompletionQueue ReadRequest WCStatus
deriving DecidableEq, Repr

namespace QueuePair

def new : QueuePair where
  posted := 0
  cq := .empty

def complete (qp : QueuePair) (status : WCStatus) : QueuePair :=
  { qp with cq := qp.cq.complete status }

/-- Every outstanding read was posted earlier. -/
def Numbered (qp : QueuePair) : Prop :=
  ∀ r ∈ qp.cq.outstanding, r.serial < qp.posted

end QueuePair

def Conn.post (qp : QueuePair) (endpoint : Option ℕ) (raddr : PhysAddr) (rkey : ℕ)
    (laddr : PhysAddr) (size : ℕ) : QueuePair where
  posted := qp.posted + 1
  cq := qp.cq.post ⟨qp.posted, endpoint, raddr, rkey, laddr, size⟩

/-- What a poll of the completion queue meets: the completions that arrived
since the last one, and an error of the driver. -/
structure CqEvent where
  arrivals : List WCStatus
  pollError : Option DatapathError
deriving DecidableEq, Repr

/-- Poll one completion from the completion queue of the connection. -/
def Conn.poll (qp : QueuePair) (e : CqEvent) :
    QueuePair × Poll WorkCompletion DatapathError :=
  let cq := qp.cq.completeAll e.arrivals
  match e.pollError with
  | some err => ({ qp with cq := cq }, .error err)
  | none =>
    match cq.poll with
    | (cq', some wc) => ({ qp with cq := cq' }, .ok (.ready wc))
    | (cq', none) => ({ qp with cq := cq' }, .ok .notReady)

namespace RemoteDevice

/-- Post a READ; the driver may refuse it. -/
def read (qp : QueuePair) (endpoint : Option ℕ) (addr : PhysAddr) (rkey : ℕ)
    (dst : PhysAddr) (size : ℕ) (postError : Option DatapathError) :
    QueuePair × Except DatapathError Unit :=
  match postError with
  | some err => (qp, .error err)
  | none => (Conn.post qp endpoint addr rkey dst size, .ok ())

/-- Poll the completion and check its status. -/
def poll (qp : QueuePair) (e : CqEvent) :
    QueuePair × Poll WorkCompletion Rdma.Err :=
  match Conn.poll qp e with
  | (qp', .ok (.ready wc)) =>
    if wc.2 = .success then (qp', .ok (.ready wc))
    else (qp', .error (.wcErr wc.2))
  | (qp', .ok .notReady) => (qp', .ok .notReady)
  | (qp', .error err) => (qp', .error (.datapathError err))

end RemoteDevice

/-! ## What a poll can do -/

section Polls

variable {qp : QueuePair} {e : CqEvent}

/-- A poll of the connection fails, finds no completion, or takes the oldest
one, and with it the oldest outstanding read. -/
theorem Conn.poll_cases (qp : QueuePair) (e : CqEvent) :
    (∃ err, e.pollError = some err ∧
      Conn.poll qp e = ({ qp with cq := qp.cq.completeAll e.arrivals }, .error err)) ∨
    ((qp.cq.completeAll e.arrivals).completed = [] ∧
      Conn.poll qp e = ({ qp with cq := qp.cq.completeAll e.arrivals }, .ok .notReady)) ∨
    (∃ wc cq', (qp.cq.completeAll e.arrivals).completed = wc :: cq'.completed ∧
      qp.cq.outstanding = wc.1 :: cq'.outstanding ∧
      Conn.poll qp e = ({ qp with cq := cq' }, .ok (.ready wc))) := by
  unfold Conn.poll
  cases e.pollError with
  | some err => exact Or.inl ⟨err, rfl, rfl⟩
  | none =>
    dsimp only
    cases hc : (qp.cq.completeAll e.arrivals).completed with
    | nil =>
      rw [CompletionQueue.poll_of_nil hc]
      exact Or.inr (Or.inl ⟨rfl, rfl⟩)
    | cons wc rest =>
      have hpoll := CompletionQueue.poll_of_cons hc
      have hout := CompletionQueue.outstanding_of_poll hpoll
      rw [CompletionQueue.outstanding_completeAll] at hout
      rw [hpoll]
      exact Or.inr (Or.inr ⟨wc, _, rfl, hout, rfl⟩)

theorem Conn.polled {I : QueuePair → Prop}
    {Q : QueuePair → Except DatapathError WorkCompletion → Prop}
    (hwait : I { qp with cq := qp.cq.completeAll e.arrivals })
    (hfail : ∀ err, Q { qp with cq := qp.cq.completeAll e.arrivals } (.error err))
    (hready : ∀ wc cq',
      (qp.cq.completeAll e.arrivals).completed = wc :: cq'.completed →
      qp.cq.outstanding = wc.1 :: cq'.outstanding →
      Q { qp with cq := cq' } (.ok wc)) :
    Polled I Q (Conn.poll qp e) := by
  rcases Conn.poll_cases qp e with ⟨err, -, hp⟩ | ⟨-, hp⟩ | ⟨wc, cq', hc, hout, hp⟩
  · rw [hp]
    exact hfail err
  · rw [hp]
    exact hwait
  · rw [hp]
    exact hready wc cq' hc hout

theorem RemoteDevice.polled {I : QueuePair → Prop}
    {Q : QueuePair → Except Rdma.Err WorkCompletion → Prop}
    (hwait : I { qp with cq := qp.cq.completeAll e.arrivals })
    (hfail : ∀ err, Q { qp with cq := qp.cq.completeAll e.arrivals }
      (.error (.datapathError err)))
    (hready : ∀ wc cq',
      (qp.cq.completeAll e.arrivals).completed = wc :: cq'.completed →
      qp.cq.outstanding = wc.1 :: cq'.outstanding →
      Q { qp with cq := cq' }
        (if wc.2 = .success then .ok wc else .error (.wcErr wc.2))) :
    Polled I Q (RemoteDevice.poll qp e) := by
  have hconn : Polled I
      (fun qp r => Q qp (match r with
        | .ok wc => if wc.2 = .success then .ok wc else .error (.wcErr wc.2)
        | .error err => .error (.datapathError err))) (Conn.poll qp e) :=
    Conn.polled hwait hfail hready
  unfold RemoteDevice.poll
  rcases hp : Conn.poll qp e with ⟨qp', err | (wc | _)⟩
  · rw [hp] at hconn
    exact hconn
  · rw [hp] at hconn
    by_cases hs : wc.2 = .success
    · simpa [Polled, hs] using hconn
    · simpa [Polled, hs] using hconn
  · rw [hp] at hconn
    exact hconn

end Polls

end Mitosis.OsNetwork
