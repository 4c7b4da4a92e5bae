import Mitosis.Descriptors.Child
import Mitosis.Prefetcher.Executor

/-!
# The page-fault handler of a resumed child

A fault on a page that the child's table maps is served from the page cache, by
a page that was read ahead, or by an RDMA read.  `read_remote_page` has two
versions, chosen by the `prefetch` feature; the handler merges an unmapped
address and a failed read into one case and then looks at the memory area.

What the network does during a fault is an input: whether the driver refuses
the post of the read, the polls of the core's queue pair with the timer, and
the polls of the prefetch connection.  After the listed polls the timer has run
out, so every wait ends.
-/

namespace Mitosis.PageFault

open Mitosis.Descriptors
open Mitosis.OsNetwork
open Mitosis.Prefetcher
open Mitosis.RemoteMapping
open Mitosis.RemotePaging

/-- The features that choose between versions of the handler. -/
structure Features where
  prefetch : Bool
  pageCache : Bool
  useRc : Bool
deriving DecidableEq, Repr

/-- How many pages a read asks the prefetcher for. -/
def prefetchStep : ℕ := 1

/-- A running child: its descriptor, the prefetch executor with the memory, and
the queue pair of its core.  `handed` is the history of the prefetched pages
given to the process, each with the page key it was for. -/
structure Child where
  descriptor : ChildDescriptor
  accessInfo : AccessInfo
  exec : Executor
  qp : QueuePair
  handed : List (ℕ × ℕ)

/-- A fault: its address and the start of the memory area it is in. -/
structure Fault where
  address : VirtAddr
  vmaStart : UInt64
deriving DecidableEq

/-- What the network does during one fault. -/
structure FaultEnv where
  postError : Option DatapathError
  polls : List (CqEvent × ℤ)
  prefetchPolls : List CqEvent
deriving DecidableEq, Repr

inductive FaultResult where
  | installed (page : ℕ)
  | sigsegv
deriving DecidableEq, Repr

/-- The poll at which the timer of a read has run out. -/
def expiry : CqEvent × ℤ := (⟨[], none⟩, timeoutUsec)

theorem exists_wait_result {σ α ε : Type} (value : σ → CqEvent → σ × Poll α ε)
    (polls : List (CqEvent × ℤ)) (s : σ) :
    ∃ s' r, blockOn (Timeout.poll value timeoutUsec) s (polls ++ [expiry]) =
      (s', some r) := by
  have hpassed : expiry.2 ≥ timeoutUsec := le_rfl
  exact exists_blockOn_result (timeout_ne_notReady hpassed) polls s

/-- What the page of a read holds when its wait has returned: the remote page
if the read has completed successfully, whether or not its completion is the
one the wait took. -/
def readContent (own : ReadRequest) (taken : WorkCompletion) (qp : QueuePair) :
    PageContent :=
  if taken = (own, .success) ∨ (own, .success) ∈ qp.cq.completed then
    .remote own.raddr
  else .unfilled

namespace Child

/-- A child that starts from a descriptor whose table lies in the heap. -/
def resume (heap : Heap) (descriptor : ChildDescriptor) (accessInfo : AccessInfo) :
    Child where
  descriptor := descriptor
  accessInfo := accessInfo
  exec := ⟨heap, .newFromRaw .new accessInfo, 0, fun _ => .unfilled, []⟩
  qp := .new
  handed := []

def root (c : Child) : Ptr := c.descriptor.pageTable.l4PageTable

/-- `lookup_pg_table`; a fault address is canonical. -/
def lookupPgTable (c : Child) (addr : VirtAddr) : Option PhysAddr :=
  c.descriptor.pageTable.translate c.exec.heap addr

/-- Give a content to a page. -/
def fillPage (c : Child) (page : ℕ) (content : PageContent) : Child :=
  { c with exec := { c.exec with contents := Function.update c.exec.contents page content } }

/-! ## Reading a remote page -/

/-- The call of `remote_read` that a fault makes. -/
def readCall (c : Child) (env : FaultEnv) (page : ℕ) (remotePa : PhysAddr) : ReadCall where
  dst := page
  src := remotePa
  sz := 4096
  accessInfo := c.accessInfo
  postError := env.postError
  polls := env.polls ++ [expiry]

/-- `read_remote_page` without the `prefetch` feature. -/
def readRemotePage (alloc : PageAllocator) (useRc : Bool) (c : Child) (addr : VirtAddr)
    (env : FaultEnv) : Except Halt (Child × Option ℕ) :=
  match c.lookupPgTable addr with
  | none => .ok (c, none)
  | some remotePa =>
    let (exec, page) := c.exec.allocPage alloc
    let call := c.readCall env page remotePa
    match remoteRead useRc c.qp call with
    | (_, none) => .error .unfinished
    | (qp, some (.ok r)) =>
      let content := readContent (ownRead useRc c.qp call) (r, .success) qp
      .ok (({ c with exec := exec, qp := qp } : Child).fillPage page content, some page)
    | (qp, some (.error _)) =>
      -- the page is freed
      .ok ({ c with exec := exec, qp := qp }, none)

/-- The loop of `poll_prefetcher`: poll until nothing is ready.  A failed poll
is not implemented. -/
def pollLoop : ℕ → Executor → List CqEvent → Except Halt (Executor × List CqEvent)
  | 0, _, _ => .error .unfinished
  | bound + 1, x, es =>
    match x.poll (nextEvent x.prefetcher.conn es).1 with
    | (x', .ok (.ready _)) => pollLoop bound x' (nextEvent x.prefetcher.conn es).2
    | (x', .ok .notReady) => .ok (x', (nextEvent x.prefetcher.conn es).2)
    | (_, .error _) => .error .panicked

/-- Every poll but the last takes an outstanding completion. -/
def pollPrefetcher (x : Executor) (es : List CqEvent) :
    Except Halt (Executor × List CqEvent) :=
  pollLoop (x.prefetcher.conn.cq.outstanding.length + 1) x es

/-- The loop that waits until a marked slot has its page. -/
def waitPrefetched (pt : Ptr) (idx : PageTableIndex) :
    ℕ → Executor → List CqEvent → Except Halt Executor
  | 0, _, _ => .error .unfinished
  | bound + 1, x, es =>
    if (x.heap.node pt).entries idx = kMagicInPrefetch then do
      let (x, es) ← pollPrefetcher x es
      waitPrefetched pt idx bound x es
    else .ok x

theorem polled_pollLoop {bound : ℕ} {x x' : Executor} {es es' : List CqEvent}
    (h : pollLoop bound x es = .ok (x', es')) : x.Polled x' := by
  induction bound generalizing x es with
  | zero => cases h
  | succ bound ih =>
    have hpoll := x.polled_poll (nextEvent x.prefetcher.conn es).1
    unfold pollLoop at h
    split at h
    · next heq =>
        rw [heq] at hpoll
        exact hpoll.trans (ih h)
    · next heq =>
        rw [heq] at hpoll
        cases h
        exact hpoll
    · cases h

theorem polled_waitPrefetched {pt : Ptr} {idx : PageTableIndex} {bound : ℕ} {x x' : Executor}
    {es : List CqEvent} (h : waitPrefetched pt idx bound x es = .ok x') :
    x.Polled x' ∧ (x'.heap.node pt).entries idx ≠ kMagicInPrefetch := by
  induction bound generalizing x es with
  | zero => cases h
  | succ bound ih =>
    unfold waitPrefetched at h
    split at h
    · obtain ⟨r, hpoll, h⟩ := Support.Outcome.bind_eq_ok.mp h
      obtain ⟨hrest, hend⟩ := ih h
      exact ⟨(polled_pollLoop hpoll).trans hrest, hend⟩
    · next hne =>
        cases h
        exact ⟨.refl, hne⟩

/-- Take the page of a slot that is or becomes local, and clear the slot. -/
def takePrefetched (c : Child) (addr : VirtAddr) (pt : Ptr) (idx : PageTableIndex)
    (env : FaultEnv) : Except Halt (Child × Option ℕ) := do
  let exec ← waitPrefetched pt idx (env.prefetchPolls.length + 2) c.exec env.prefetchPolls
  let page := PhysAddr.decode ((exec.heap.node pt).entries idx)
  -- the OS is responsible for reclaiming this page
  .ok ({ c with
      exec := { exec with heap := exec.heap.setEntry pt idx 0 }
      handed := c.handed ++ [(addr.pageKey, page)] }, some page)

theorem takePrefetched_eq_ok {c c' : Child} {addr : VirtAddr} {pt : Ptr} {idx : PageTableIndex}
    {env : FaultEnv} {r : Option ℕ} (h : c.takePrefetched addr pt idx env = .ok (c', r)) :
    ∃ x : Executor, c.exec.Polled x ∧ (x.heap.node pt).entries idx ≠ kMagicInPrefetch ∧
      c' = { c with
        exec := { x with heap := x.heap.setEntry pt idx 0 }
        handed := c.handed ++
          [(addr.pageKey, PhysAddr.decode ((x.heap.node pt).entries idx))] } ∧
      r = some (PhysAddr.decode ((x.heap.node pt).entries idx)) := by
  obtain ⟨x, hwait, heq⟩ := Support.Outcome.bind_eq_ok.mp h
  cases heq
  obtain ⟨hpolled, hready⟩ := polled_waitPrefetched hwait
  exact ⟨x, hpolled, hready, rfl, rfl⟩

def demandRead (c : Child) (page : ℕ) (remotePa : PhysAddr) : ReadRequest where
  serial := c.qp.posted
  endpoint := some c.accessInfo.accessHandler
  raddr := PhysAddr.decode remotePa
  rkey := c.accessInfo.rkey
  laddr := page
  size := 4096

/-- Post the READ of a fault and wait: the oldest completion ends the wait,
whatever its status. -/
def waitRead (c : Child) (own : ReadRequest) (env : FaultEnv) :
    QueuePair × Option (Except (TimeoutError DatapathError) WorkCompletion) :=
  blockOn (Timeout.poll Conn.poll timeoutUsec)
    (Conn.post c.qp own.endpoint own.raddr own.rkey own.laddr own.size)
    (env.polls ++ [expiry])

/-- What `read_remote_page` makes of the end of its wait. -/
def awaitRead (c : Child) (exec : Executor) (own : ReadRequest) (env : FaultEnv) :
    Except Halt (Child × Option ℕ) :=
  match c.waitRead own env with
  | (_, none) => .error .unfinished
  | (qp, some (.ok wc)) =>
    .ok (({ c with exec := exec, qp := qp } : Child).fillPage own.laddr
      (readContent own wc qp), some own.laddr)
  | (qp, some (.error _)) =>
    -- the page is freed
    .ok ({ c with exec := exec, qp := qp }, none)

/-- `read_remote_page` with the `prefetch` feature: serve a page that was read
ahead, or read the page and post READs for the pages behind it meanwhile. -/
def readRemotePagePrefetch (alloc : PageAllocator) (c : Child) (addr : VirtAddr)
    (env : FaultEnv) : Except Halt (Child × Option ℕ) :=
  match c.descriptor.pageTable.findL1PageIdx c.exec.heap addr with
  | none => .ok (c, none)
  | some (pt, idx) =>
    let remotePa := (c.exec.heap.node pt).entries idx
    if PhysAddr.isPrefetch remotePa then c.takePrefetched addr pt idx env
    else do
      let (exec, page) := c.exec.allocPage alloc
      -- the post of the READ is unwrapped
      if env.postError.isSome then .error .panicked
      let exec ← exec.executeReqs alloc prefetchStep (.newFromL1 pt idx)
      let (exec, _) ← pollPrefetcher exec env.prefetchPolls
      c.awaitRead exec (c.demandRead page remotePa) env

/-! ## The handler -/

/-- The version of `read_remote_page` that the features choose. -/
def readPage (f : Features) (alloc : PageAllocator) (c : Child) (addr : VirtAddr)
    (env : FaultEnv) : Except Halt (Child × Option ℕ) :=
  if f.prefetch then c.readRemotePagePrefetch alloc addr env
  else c.readRemotePage alloc f.useRc addr env

/-- A page of the cache: shared if it is read-only, copied otherwise. -/
def cachedPage (alloc : PageAllocator) (c : Child) (phyAddr : PhysAddr) : Child × ℕ :=
  let page := PhysAddr.decode phyAddr
  if PhysAddr.isRo phyAddr then (c, page)
  else
    let (exec, newPage) := c.exec.allocPage alloc
    (({ c with exec := exec } : Child).fillPage newPage (exec.contents page), newPage)

def cachePage (c : Child) (addr : VirtAddr) (page : ℕ) : Child :=
  let kernelVa := PhysAddr.encode page PhysAddrBitFlag.cache.bits
  let (heap, pageTable) := c.descriptor.pageTable.forceMap c.exec.heap addr kernelVa
  { c with
    descriptor := { c.descriptor with pageTable := pageTable }
    exec := { c.exec with heap := heap } }

/-- Some anonymous area of the parent starts where the faulting one does. -/
def anonymous (c : Child) (vmaStart : UInt64) : Bool :=
  c.descriptor.vma.any fun vd => vd.isAnonymous && vmaStart == vd.getStart

/-- No page was obtained: an anonymous area gets a fresh page. -/
def faultWithoutPage (alloc : PageAllocator) (c : Child) (vmaStart : UInt64) :
    Child × FaultResult :=
  if c.anonymous vmaStart then
    let (exec, page) := c.exec.allocPage alloc
    ({ c with exec := exec }, .installed page)
  else (c, .sigsegv)

def handlePageFault (f : Features) (alloc : PageAllocator) (c : Child) (fault : Fault)
    (env : FaultEnv) : Except Halt (Child × FaultResult) :=
  match c.lookupPgTable fault.address with
  | none => .ok (c.faultWithoutPage alloc fault.vmaStart)
  | some phyAddr =>
    if f.pageCache && PhysAddr.isCache phyAddr then
      let (c, page) := c.cachedPage alloc phyAddr
      .ok (c, .installed page)
    else do
      match ← c.readPage f alloc fault.address env with
      | (c, some page) =>
        .ok (if f.pageCache then c.cachePage fault.address page else c, .installed page)
      | (c, none) => .ok (c.faultWithoutPage alloc fault.vmaStart)

/-- A page that is not cached is read and installed; when the read fails, the handler goes
on as if the address were not mapped. -/
theorem handlePageFault_of_miss {f : Features} {alloc : PageAllocator} {c c' : Child}
    {fault : Fault} {env : FaultEnv} {w : PhysAddr} {page : Option ℕ}
    (hw : c.lookupPgTable fault.address = some w)
    (hmiss : (f.pageCache && PhysAddr.isCache w) = false)
    (hread : c.readPage f alloc fault.address env = .ok (c', page)) :
    c.handlePageFault f alloc fault env =
      .ok (page.elim (c'.faultWithoutPage alloc fault.vmaStart) fun page =>
        (if f.pageCache then c'.cachePage fault.address page else c', .installed page)) := by
  rw [handlePageFault, hw]
  dsimp only
  rw [if_neg (ne_true_of_eq_false hmiss), hread]
  cases page <;> rfl

end Child

/-! ## Runs of a child -/

/-- What a fault shows: the content of the page it installed, a signal, or that
the handler did not return. -/
inductive FaultReport where
  | installed (content : PageContent)
  | sigsegv
  | halted (h : Halt)
deriving DecidableEq, Repr

/-- A fault, a completion on the prefetch connection, or a poll of the
prefetcher. -/
inductive ChildAction where
  | fault (fault : Fault) (env : FaultEnv)
  | complete (status : WCStatus)
  | poll (e : CqEvent)
deriving DecidableEq

namespace Child

def report (c : Child) : FaultResult → FaultReport
  | .installed page => .installed (c.exec.contents page)
  | .sigsegv => .sigsegv

/-- The next state and what a fault shows; nothing changes if it halts. -/
def faultStep (f : Features) (alloc : PageAllocator) (c : Child) (fault : Fault)
    (env : FaultEnv) : Child × FaultReport :=
  match c.handlePageFault f alloc fault env with
  | .ok (c', r) => (c', c'.report r)
  | .error h => (c, .halted h)

/-- The oldest READ of the prefetch connection completes. -/
def complete (c : Child) (status : WCStatus) : Child :=
  { c with exec := { c.exec with prefetcher := { c.exec.prefetcher with
      conn := c.exec.prefetcher.conn.complete status } } }

def pollOnce (c : Child) (e : CqEvent) : Child × Option FaultReport :=
  match c.exec.poll e with
  | (x, .error .panicked) => ({ c with exec := x }, some (.halted .panicked))
  | (x, _) => ({ c with exec := x }, none)

end Child

def childMachine (f : Features) (alloc : PageAllocator) :
    Support.Machine Child ChildAction (Option FaultReport) where
  step c
    | .fault fault env =>
      ((c.faultStep f alloc fault env).1, some (c.faultStep f alloc fault env).2)
    | .complete status => (c.complete status, none)
    | .poll e => c.pollOnce e

end Mitosis.PageFault
