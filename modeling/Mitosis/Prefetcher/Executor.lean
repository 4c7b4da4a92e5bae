import Mathlib.Logic.Relation
import Mitosis.Prefetcher.Strategies
import Mitosis.RemotePaging.RemoteRead

/-!
# The prefetch executor

`DCAsyncPrefetcher` reads pages ahead on a queue pair of its own.  A slot of the
page table tells the state of its page: a remote address, the mark of a READ
under way, or a local page with the lowest bit set.  `execute_reqs` puts the
mark and posts the READ, `poll` takes a completion and stores the local page.

The completions that arrive before each poll are inputs.  A schedule lists them
for the first polls; after its end everything in flight has arrived.
-/

namespace Mitosis.Prefetcher

open Mitosis.OsNetwork
open Mitosis.RemoteMapping
open Mitosis.RemotePaging (AccessInfo)

/-- The page allocator: the pointer that each call returns.  As long as there is
memory, which is for the first `capacity` calls, these are proper pointers and a
page in use is not returned again.  A page that is freed and allocated again
counts as another page. -/
structure PageAllocator where
  page : ℕ → ℕ
  capacity : ℕ
  injective : ∀ m n, m < capacity → n < capacity → page m = page n → m = n
  aligned : ∀ n, n < capacity → page n % 8 = 0
  ne_null : ∀ n, n < capacity → page n ≠ 0
  fits : ∀ n, n < capacity → page n < 2 ^ 64

/-- What a local page holds: what was in the frame when it was allocated, or a
remote page that was read into it. -/
inductive PageContent where
  | unfilled
  | remote (raddr : PhysAddr)
deriving DecidableEq, Repr

/-- A READ under way: the slot to update and the local page to fill. -/
structure ReplyEntry where
  pt : Ptr
  idx : PageTableIndex
  userPage : ℕ
deriving DecidableEq

structure DCAsyncPrefetcher where
  conn : QueuePair
  pendingQueues : List ReplyEntry
  accessInfo : AccessInfo

namespace DCAsyncPrefetcher

def newFromRaw (conn : QueuePair) (accessInfo : AccessInfo) : DCAsyncPrefetcher where
  conn := conn
  pendingQueues := []
  accessInfo := accessInfo

end DCAsyncPrefetcher

/-- The prefetcher with the memory it works on: page-table nodes, the number of
allocated pages and what they hold.  `issued` is the history of the pages that
`execute_reqs` allocated. -/
structure Executor where
  heap : Heap
  prefetcher : DCAsyncPrefetcher
  allocated : ℕ
  contents : ℕ → PageContent
  issued : List ℕ

/-- A loop that has not ended within its bound, or an abort. -/
inductive Halt where
  | unfinished
  | panicked
deriving DecidableEq, Repr

inductive PollError where
  | driver (error : DatapathError)
  | panicked
deriving DecidableEq, Repr

/-- A READ that completed successfully has filled its page. -/
def fillPage (contents : ℕ → PageContent) (wc : WorkCompletion) : ℕ → PageContent :=
  if wc.2 = .success then Function.update contents wc.1.laddr (.remote wc.1.raddr)
  else contents

/-- The input of the next poll on a connection, and the rest of the schedule. -/
def nextEvent (conn : QueuePair) : List CqEvent → CqEvent × List CqEvent
  | [] => (⟨conn.cq.inFlight.map fun _ => .success, none⟩, [])
  | e :: es => (e, es)

namespace Executor

def allocPage (alloc : PageAllocator) (x : Executor) : Executor × ℕ :=
  let page := alloc.page x.allocated
  ({ x with
      allocated := x.allocated + 1
      contents := Function.update x.contents page .unfilled }, page)

/-- Process one request: mark the slot, post the READ and record it. -/
def executeReq (alloc : PageAllocator) (x : Executor) (req : PageEntry) : Executor :=
  let phyaddr := (x.heap.node req.page).entries req.index
  if PhysAddr.bottomBit phyaddr then
    -- this page has been prefetched, or at least in the list
    x
  else
    let remotePa := PhysAddr.realAddr phyaddr
    let (x, userPage) := allocPage alloc x
    { x with
      heap := x.heap.setEntry req.page req.index kMagicInPrefetch
      prefetcher := { x.prefetcher with
        conn := Conn.post x.prefetcher.conn (some x.prefetcher.accessInfo.accessHandler)
          remotePa x.prefetcher.accessInfo.rkey userPage 4096
        pendingQueues := x.prefetcher.pendingQueues ++ [⟨req.page, req.index, userPage⟩] }
      issued := x.issued ++ [userPage] }

/-- Generate the requests of the step strategy and execute them. -/
def executeReqs (alloc : PageAllocator) (x : Executor) (n : ℕ)
    (iter : RemotePageTableIter) : Except Halt Executor :=
  match StepPrefetcher.generateRequest x.heap n iter with
  | none => .error .unfinished
  | some reqs => .ok (reqs.foldl (executeReq alloc) x)

/-- Take one completion and store its page in the slot of the oldest entry. -/
def poll (x : Executor) (e : CqEvent) : Executor × Poll ℕ PollError :=
  match Conn.poll x.prefetcher.conn e with
  | (conn, .ok (.ready wc)) =>
    match x.prefetcher.pendingQueues with
    | [] => ({ x with prefetcher := { x.prefetcher with conn := conn } }, .error .panicked)
    | v :: rest =>
      if PhysAddr.bottomBit v.userPage then
        ({ x with prefetcher := ⟨conn, rest, x.prefetcher.accessInfo⟩ }, .error .panicked)
      else
        ({ x with
            heap := x.heap.setEntry v.pt v.idx
              (PhysAddr.encode v.userPage PhysAddrBitFlag.prefetch.bits)
            prefetcher := ⟨conn, rest, x.prefetcher.accessInfo⟩
            contents := fillPage x.contents wc }, .ok (.ready v.userPage))
  | (conn, .ok .notReady) =>
    ({ x with prefetcher := { x.prefetcher with conn := conn } }, .ok .notReady)
  | (conn, .error err) =>
    ({ x with prefetcher := { x.prefetcher with conn := conn } }, .error (.driver err))

/-- The loop of `drain_connections`. -/
def drainLoop : ℕ → Executor → List CqEvent →
    Except Halt (Executor × Except DatapathError Unit)
  | 0, _, _ => .error .unfinished
  | bound + 1, x, es =>
    if x.prefetcher.pendingQueues.isEmpty then .ok (x, .ok ())
    else
      match poll x (nextEvent x.prefetcher.conn es).1 with
      | (_, .error .panicked) => .error .panicked
      | (x', .error (.driver err)) => .ok (x', .error err)
      | (x', .ok _) => drainLoop bound x' (nextEvent x.prefetcher.conn es).2

/-- Poll until no entry is pending.  After the schedule every poll takes one. -/
def drainConnections (x : Executor) (es : List CqEvent) :
    Except Halt (Executor × Except DatapathError Unit) :=
  drainLoop (es.length + x.prefetcher.pendingQueues.length + 1) x es

/-! ## Allocations -/

theorem allocated_executeReq_le (alloc : PageAllocator) (x : Executor) (req : PageEntry) :
    (executeReq alloc x req).allocated ≤ x.allocated + 1 := by
  unfold executeReq
  dsimp only
  split
  · exact Nat.le_succ _
  · exact le_rfl

theorem allocated_foldl_executeReq_le (alloc : PageAllocator) (reqs : List PageEntry)
    (x : Executor) :
    (reqs.foldl (executeReq alloc) x).allocated ≤ x.allocated + reqs.length := by
  induction reqs generalizing x with
  | nil => exact le_rfl
  | cons req reqs ih =>
    have hone := allocated_executeReq_le alloc x req
    have hrest := ih (executeReq alloc x req)
    rw [List.foldl_cons, List.length_cons]
    omega

theorem allocated_poll (x : Executor) (e : CqEvent) :
    (x.poll e).1.allocated = x.allocated := by
  unfold poll
  split
  · split
    · rfl
    · split <;> rfl
  · rfl
  · rfl

/-! ## Polls -/

/-- Any number of polls, which is all that the waiting loops do. -/
def Polled : Executor → Executor → Prop :=
  Relation.ReflTransGen fun x x' => ∃ e, (x.poll e).1 = x'

theorem Polled.invariant {I : Executor → Prop} (hstep : ∀ x e, I x → I (x.poll e).1)
    {x x' : Executor} (h : Polled x x') (hx : I x) : I x' := by
  induction h with
  | refl => exact hx
  | tail _ hlast ih =>
    obtain ⟨e, rfl⟩ := hlast
    exact hstep _ e ih

theorem polled_poll (x : Executor) (e : CqEvent) : Polled x (x.poll e).1 :=
  .single ⟨e, rfl⟩

theorem polled_drainLoop {bound : ℕ} {x x' : Executor} {es : List CqEvent}
    {r : Except DatapathError Unit} (h : drainLoop bound x es = .ok (x', r)) : Polled x x' := by
  induction bound generalizing x es with
  | zero => cases h
  | succ bound ih =>
    have hpoll := x.polled_poll (nextEvent x.prefetcher.conn es).1
    unfold drainLoop at h
    split at h
    · cases h
      exact .refl
    · split at h
      · cases h
      · next heq =>
          rw [heq] at hpoll
          cases h
          exact hpoll
      · next heq =>
          rw [heq] at hpoll
          exact hpoll.trans (ih h)

end Executor

end Mitosis.Prefetcher
