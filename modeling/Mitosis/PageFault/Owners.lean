import Mitosis.PageFault.Refinement
import Mitosis.Prefetcher.TablePages
import Mitosis.Support.RefCounts

/-!
# Who owns the pages of a child

A fault allocates pages, gives one of them back if its READ fails, hands a page to the
process and, with the `page-cache` feature, takes another reference to the page it has
read.  The child itself owns the pages of its pending READs and the pages that were read
ahead into its table.  Along every fault and poll the events and the owners fit together;
the network may do anything.
-/

namespace Mitosis.PageFault

open Mitosis.OsNetwork
open Mitosis.Prefetcher
open Mitosis.RemoteMapping
open Mitosis.Support (RefEvent)
open Mitosis.Support.RefCounts

/-! ## The page events of a fault -/

/-- The pages that the allocator returned between two counts. -/
def allocEvents (alloc : PageAllocator) (m n : ℕ) : List (RefEvent ℕ) :=
  (List.range' m (n - m)).map fun i => .alloc (alloc.page i)

/-- The pages that events hand to the process. -/
def handedPages (es : List (RefEvent ℕ)) : List ℕ :=
  es.filterMap fun
    | .hand page => some page
    | _ => none

namespace Child

def faultWithoutPageEvents (alloc : PageAllocator) (c : Child) (vmaStart : UInt64) :
    List (RefEvent ℕ) :=
  if c.anonymous vmaStart then
    [.alloc (alloc.page c.exec.allocated), .hand (alloc.page c.exec.allocated)]
  else []

/-- A shared page gets a reference for the process. -/
def cachedPageEvents (alloc : PageAllocator) (c : Child) (phyAddr : PhysAddr) :
    List (RefEvent ℕ) :=
  if PhysAddr.isRo phyAddr then [.get (PhysAddr.decode phyAddr), .hand (PhysAddr.decode phyAddr)]
  else [.alloc (alloc.page c.exec.allocated), .hand (alloc.page c.exec.allocated)]

/-- A page that was read gets a reference for the cache.  If the READ failed, the page
allocated for it, which is the first one, is freed. -/
def readEvents (f : Features) (alloc : PageAllocator) (c c' : Child) (vmaStart : UInt64) :
    Option ℕ → List (RefEvent ℕ)
  | some page => allocEvents alloc c.exec.allocated c'.exec.allocated ++
      .hand page :: (if f.pageCache then [.get page] else [])
  | none => allocEvents alloc c.exec.allocated c'.exec.allocated ++
      .put (alloc.page c.exec.allocated) :: c'.faultWithoutPageEvents alloc vmaStart

/-- What `handle_page_fault` does to the pages of the machine. -/
def faultEvents (f : Features) (alloc : PageAllocator) (c : Child) (fault : Fault)
    (env : FaultEnv) : List (RefEvent ℕ) :=
  match c.lookupPgTable fault.address with
  | none => c.faultWithoutPageEvents alloc fault.vmaStart
  | some phyAddr =>
    if f.pageCache && PhysAddr.isCache phyAddr then c.cachedPageEvents alloc phyAddr
    else
      match c.readPage f alloc fault.address env with
      | .error _ => []
      | .ok (c', page) => c.readEvents f alloc c' fault.vmaStart page

end Child

def FaultResult.pages : FaultResult → List ℕ
  | .installed page => [page]
  | .sigsegv => []

variable {f : Features} {alloc : PageAllocator} {fault : Fault} {env : FaultEnv} {c : Child}
  {w : PhysAddr}

@[simp] theorem handedPages_append (es es' : List (RefEvent ℕ)) :
    handedPages (es ++ es') = handedPages es ++ handedPages es' :=
  List.filterMap_append

@[simp] theorem handedPages_allocEvents (alloc : PageAllocator) (m n : ℕ) :
    handedPages (allocEvents alloc m n) = [] := by
  simp [handedPages, allocEvents, List.filterMap_map]

theorem handedPages_faultWithoutPageEvents (alloc : PageAllocator) (c : Child)
    (vmaStart : UInt64) :
    handedPages (c.faultWithoutPageEvents alloc vmaStart) =
      (c.faultWithoutPage alloc vmaStart).2.pages := by
  unfold Child.faultWithoutPageEvents Child.faultWithoutPage
  split <;> rfl

theorem handedPages_faultEvents {c c' : Child} {r : FaultResult}
    (h : c.handlePageFault f alloc fault env = .ok (c', r)) :
    handedPages (c.faultEvents f alloc fault env) = r.pages := by
  unfold Child.handlePageFault at h
  unfold Child.faultEvents
  cases hw : c.lookupPgTable fault.address with
  | none =>
    rw [hw] at h
    rw [handedPages_faultWithoutPageEvents, Except.ok.inj h]
  | some w =>
    rw [hw] at h
    dsimp only at h ⊢
    split at h
    · next hhit =>
        cases h
        rw [if_pos hhit]
        unfold Child.cachedPageEvents Child.cachedPage
        split <;> rfl
    · next hmiss =>
        rw [if_neg hmiss]
        cases hread : c.readPage f alloc fault.address env with
        | error halt =>
          rw [hread] at h
          cases h
        | ok res =>
          obtain ⟨c₁, page⟩ := res
          rw [hread] at h
          cases page with
          | none =>
            have hrest := handedPages_faultWithoutPageEvents alloc c₁ fault.vmaStart
            rw [Except.ok.inj h] at hrest
            rw [← hrest]
            simp only [Child.readEvents, handedPages_append, handedPages_allocEvents]
            rfl
          | some page =>
            cases h
            simp only [Child.readEvents, handedPages_append, handedPages_allocEvents]
            cases f.pageCache <;> rfl

theorem faultEvents_of_readAhead (hf : f.prefetch = true) (hcache : f.pageCache = true)
    (hw : c.lookupPgTable fault.address = some w) (hbit : PhysAddr.isPrefetch w = true)
    (hmark : w ≠ kMagicInPrefetch) (hplain : PhysAddr.isCache w = false) :
    c.faultEvents f alloc fault env = [.hand (PhysAddr.decode w), .get (PhysAddr.decode w)] := by
  obtain ⟨⟨pt, idx⟩, hfind, hentry⟩ := Option.bind_eq_some_iff.mp hw
  obtain ⟨-, hentry⟩ := Option.ite_none_right_eq_some.mp hentry
  have hword : (c.exec.heap.node pt).entries idx = w := Option.some.inj hentry
  have hwait : Child.waitPrefetched pt idx (env.prefetchPolls.length + 2) c.exec env.prefetchPolls =
      .ok c.exec := by
    rw [Child.waitPrefetched, if_neg (hword ▸ hmark)]
  have hread : c.readPage f alloc fault.address env =
      .ok ({ c with
        exec := { c.exec with heap := c.exec.heap.setEntry pt idx 0 }
        handed := c.handed ++ [(fault.address.pageKey, PhysAddr.decode w)] },
        some (PhysAddr.decode w)) := by
    rw [Child.readPage, if_pos hf, Child.readRemotePagePrefetch, hfind]
    dsimp only
    rw [hword, if_pos hbit, Child.takePrefetched, hwait, ← hword]
    rfl
  unfold Child.faultEvents
  rw [hw]
  dsimp only
  rw [hplain, Bool.and_false, if_neg Bool.false_ne_true, hread]
  simp [Child.readEvents, allocEvents, hcache]

/-! ## Allocations -/

def unusedPages (alloc : PageAllocator) (n : ℕ) : Set ℕ :=
  {page | ∃ m, n ≤ m ∧ m < alloc.capacity ∧ alloc.page m = page}

variable {n : ℕ} {o : Multiset ℕ}

theorem trades_allocPage (hn : n < alloc.capacity) :
    Trades o (unusedPages alloc n) [.alloc (alloc.page n)] (alloc.page n ::ₘ o)
      (unusedPages alloc (n + 1)) := by
  have hnext : alloc.page n ∈ unusedPages alloc n := ⟨n, le_rfl, hn, rfl⟩
  refine (trades_alloc hnext).weaken le_rfl ?_
  rintro page ⟨m, hm, hcap, rfl⟩
  refine ⟨⟨m, by omega, hcap, rfl⟩, fun heq => ?_⟩
  have hmn := alloc.injective m n hcap hn heq
  omega

theorem trades_newPage (hn : n < alloc.capacity) :
    Trades o (unusedPages alloc n) [.alloc (alloc.page n), .hand (alloc.page n)]
      (o + {alloc.page n}) (unusedPages alloc (n + 1)) := by
  rw [add_comm, Multiset.singleton_add]
  exact (trades_allocPage hn).append (trades_hand (Multiset.mem_cons_self _ _))

theorem allocEvents_self (alloc : PageAllocator) (n : ℕ) : allocEvents alloc n n = [] := by
  simp [allocEvents]

theorem allocEvents_succ (alloc : PageAllocator) (n : ℕ) :
    allocEvents alloc n (n + 1) = [.alloc (alloc.page n)] := by
  simp [allocEvents]

theorem allocEvents_append (alloc : PageAllocator) {m k n : ℕ} (hmk : m ≤ k) (hkn : k ≤ n) :
    allocEvents alloc m k ++ allocEvents alloc k n = allocEvents alloc m n := by
  obtain ⟨i, rfl⟩ := Nat.exists_eq_add_of_le hmk
  obtain ⟨j, rfl⟩ := Nat.exists_eq_add_of_le hkn
  have hlen : m + i + j - m = i + j := by omega
  simp only [allocEvents, hlen, Nat.add_sub_cancel_left, ← List.map_append, List.range'_append_1]

/-! ## The words of a table -/

/-- A word of a child's table: as the parent wrote it, the mark of a READ, a page that was
read ahead, or a cached page. -/
inductive TableWord (w : PhysAddr) : Prop
  | remote (hprefetch : PhysAddr.isPrefetch w = false) (hcache : PhysAddr.isCache w = false)
  | mark (hw : w = kMagicInPrefetch)
  | ahead {page : ℕ} (hpage : ValidPage page) (hw : w = localWord page)
  | cached {page : ℕ} (hpage : page % 8 = 0)
      (hw : w = PhysAddr.encode page PhysAddrBitFlag.cache.bits)

variable {page : ℕ}

theorem isPrefetch_cached (hpage : page % 8 = 0) :
    PhysAddr.isPrefetch (PhysAddr.encode page PhysAddrBitFlag.cache.bits) = false := by
  rw [PhysAddr.isPrefetch_eq_false_iff, PhysAddr.encode_eq hpage .cache]
  change (page + 2) % 2 = 0
  omega

/-- A cached page is not shared with the process: the words of the cache lose the
read-only bit. -/
theorem TableWord.isRo_of_isCache (h : TableWord w)
    (hcache : PhysAddr.isCache w = true) : PhysAddr.isRo w = false := by
  cases h with
  | remote _ hnot =>
    rw [hnot] at hcache
    cases hcache
  | mark hw =>
    rw [hw] at hcache
    cases hcache
  | @ahead page hpage hw =>
    have haligned := hpage.aligned
    rw [hw, hpage.localWord_eq, PhysAddr.isCache_iff] at hcache
    omega
  | @cached page hpage hw =>
    rw [Bool.eq_false_iff, ne_eq, PhysAddr.isRo_iff, hw, PhysAddr.encode_eq hpage .cache]
    change ¬ (page + 2) / 4 % 2 = 1
    omega

theorem decode_mod (w : PhysAddr) : PhysAddr.decode w % 8 = 0 := by
  have hmask : 2 ^ 64 - 1 - PhysAddrBitFlag.mask = (2 ^ 61 - 1) * 2 ^ 3 := by decide
  have hdiv : PhysAddr.decode w % 2 ^ 3 = 0 := by
    rw [PhysAddr.decode, hmask, Nat.and_mod_two_pow, Nat.mul_mod_left, Nat.and_zero]
  exact hdiv

/-! ## The executor -/

/-- The pages that the executor owns: those of the pending READs and of the table. -/
def ownedPages (root : Ptr) (x : Executor) : Multiset ℕ :=
  (x.prefetcher.pendingQueues.map ReplyEntry.userPage : List ℕ) + tablePages x.heap root

/-- The table has proper words, and the pending READs are for slots of it. -/
structure Keeps (σ : Setup) (x : Executor) : Prop where
  table : HasWords σ x.heap (nodeAt x.heap σ.root 4)
  words : ∀ k w, nodeAt x.heap σ.root 4 k = some w → TableWord w
  pending : ∀ e ∈ x.prefetcher.pendingQueues,
    (∃ k, σ.SlotAt e.pt e.idx k) ∧ ValidPage e.userPage

/-- From `x` to `x'` pages were allocated, and the pages of `x'` are owned. -/
structure Moves (σ : Setup) (x x' : Executor) : Prop where
  keeps : Keeps σ x'
  le : x.allocated ≤ x'.allocated
  trades : Trades (ownedPages σ.root x) (unusedPages σ.alloc x.allocated)
    (allocEvents σ.alloc x.allocated x'.allocated) (ownedPages σ.root x')
    (unusedPages σ.alloc x'.allocated)

section Exec

variable {σ : Setup} {x x' x'' : Executor} {pt : Ptr} {idx : PageTableIndex} {k : ℕ}
  {w : PhysAddr}

theorem Moves.of_le (hkeeps : Keeps σ x') (halloc : x'.allocated = x.allocated)
    (howned : ownedPages σ.root x' ≤ ownedPages σ.root x) : Moves σ x x' where
  keeps := hkeeps
  le := halloc.ge
  trades := by
    rw [halloc, allocEvents_self]
    exact .lose howned

theorem Moves.trans (h : Moves σ x x') (h' : Moves σ x' x'') : Moves σ x x'' where
  keeps := h'.keeps
  le := h.le.trans h'.le
  trades := by
    rw [← allocEvents_append σ.alloc h.le h'.le]
    exact h.trades.append h'.trades

namespace Keeps

theorem congr (h : Keeps σ x) (hheap : x'.heap = x.heap)
    (hpending : x'.prefetcher.pendingQueues = x.prefetcher.pendingQueues) : Keeps σ x' where
  table := hheap ▸ h.table
  words := hheap ▸ h.words
  pending := hpending ▸ h.pending

theorem write (h : Keeps σ x) (hs : σ.SlotAt pt idx k) (hw : w ≠ 0 → TableWord w)
    (hheap : x'.heap = x.heap.setEntry pt idx w)
    (hpending : ∀ e ∈ x'.prefetcher.pendingQueues, e ∈ x.prefetcher.pendingQueues ∨
      ((∃ k, σ.SlotAt e.pt e.idx k) ∧ ValidPage e.userPage)) : Keeps σ x' := by
  have hset := h.table.setEntry hs w
  rw [← hheap] at hset
  refine ⟨⟨hset.wellFormed, hset.nodes, fun _ => rfl⟩, ?_, ?_⟩
  · intro j w' hw'
    rw [hset.words] at hw'
    by_cases hj : j = k
    · rw [hj, Function.update_self] at hw'
      split at hw'
      · cases hw'
      · next hzero =>
          cases hw'
          exact hw hzero
    · rw [Function.update_of_ne hj] at hw'
      exact h.words j w' hw'
  · intro e he
    rcases hpending e he with hold | hnew
    · exact h.pending e hold
    · exact hnew

/-- A write exchanges the pages of the old and the new word. -/
theorem tablePages_setEntry (h : Keeps σ x) (hs : σ.SlotAt pt idx k) (w : PhysAddr) :
    tablePages (x.heap.setEntry pt idx w) σ.root + heldPages (lookupTable x.heap idx pt) =
      tablePages x.heap σ.root + heldPages (if w = 0 then none else some w) := by
  have hlt := nodeAt_lt ((h.table.nodes _).trans hs.node)
  have hkey : k / 512 ^ 4 = 0 := Nat.div_eq_of_lt (by omega)
  unfold tablePages
  rw [funext (h.table.setEntry hs w).words, ← h.table.word_eq hs]
  exact pagesBelow_update _ hkey

theorem tablePages_le (h : Keeps σ x) (hs : σ.SlotAt pt idx k) (w : PhysAddr) :
    tablePages (x.heap.setEntry pt idx w) σ.root ≤
      tablePages x.heap σ.root + heldPages (if w = 0 then none else some w) := by
  rw [← h.tablePages_setEntry hs w]
  exact Multiset.le_add_right _ _

/-! ### Polls -/

theorem poll (h : Keeps σ x) (e : CqEvent) :
    Keeps σ (x.poll e).1 ∧ ownedPages σ.root (x.poll e).1 ≤ ownedPages σ.root x := by
  unfold Executor.poll ownedPages
  split
  · cases hqueue : x.prefetcher.pendingQueues with
    | nil => exact ⟨h.congr rfl rfl, by simp [hqueue]⟩
    | cons v rest =>
      obtain ⟨⟨k, hs⟩, hpage⟩ := h.pending v (by rw [hqueue]; exact List.mem_cons_self)
      have hrest : ∀ e ∈ rest, e ∈ x.prefetcher.pendingQueues := by
        intro e he
        rw [hqueue]
        exact List.mem_cons_of_mem v he
      dsimp only
      rw [List.map_cons, ← Multiset.cons_coe, ← Multiset.singleton_add, add_assoc]
      split
      · exact ⟨⟨h.table, h.words, fun e he => h.pending e (hrest e he)⟩, Multiset.le_add_left _ _⟩
      · refine ⟨h.write hs (fun _ => .ahead hpage rfl) rfl fun e he => Or.inl (hrest e he), ?_⟩
        have hle := h.tablePages_le hs (localWord v.userPage)
        have hne : localWord v.userPage ≠ 0 := by
          rw [hpage.localWord_eq]
          exact Nat.succ_ne_zero _
        rw [if_neg hne, heldPages_localWord hpage] at hle
        refine (add_le_add le_rfl hle).trans (le_of_eq ?_)
        rw [add_comm (tablePages _ _), add_left_comm]
  · exact ⟨h.congr rfl rfl, le_rfl⟩
  · exact ⟨h.congr rfl rfl, le_rfl⟩

theorem polled (h : Keeps σ x) (hpolled : x.Polled x') :
    Keeps σ x' ∧ x'.allocated = x.allocated ∧ ownedPages σ.root x' ≤ ownedPages σ.root x := by
  refine hpolled.invariant (I := fun y => Keeps σ y ∧ y.allocated = x.allocated ∧
    ownedPages σ.root y ≤ ownedPages σ.root x) ?_ ⟨h, rfl, le_rfl⟩
  rintro y e ⟨hy, halloc, hle⟩
  obtain ⟨hpoll, hle'⟩ := hy.poll e
  exact ⟨hpoll, (y.allocated_poll e).trans halloc, hle'.trans hle⟩

theorem moves_polled (h : Keeps σ x) (hpolled : x.Polled x') : Moves σ x x' :=
  .of_le (h.polled hpolled).1 (h.polled hpolled).2.1 (h.polled hpolled).2.2

/-! ### Requests -/

theorem executeReq (h : Keeps σ x) (hmem : x.allocated < σ.alloc.capacity) {req : PageEntry}
    (hs : σ.SlotAt req.page req.index k) : Moves σ x (Executor.executeReq σ.alloc x req) := by
  unfold Executor.executeReq
  dsimp only
  split
  · exact .of_le h rfl le_rfl
  · next hbit =>
      have hpages := h.tablePages_setEntry hs kMagicInPrefetch
      have hold : heldPages (lookupTable x.heap req.index req.page) = 0 := by
        cases hlookup : lookupTable x.heap req.index req.page with
        | none => rfl
        | some w =>
          rw [(lookupTable_eq_some.mp hlookup).1] at hbit
          exact heldPages_of_not_isPrefetch (Bool.eq_false_iff.mpr hbit)
      rw [hold, if_neg (by decide), heldPages_mark, add_zero, add_zero] at hpages
      constructor
      case keeps =>
        refine h.write hs (fun _ => .mark rfl) rfl fun e he => ?_
        rcases List.mem_append.mp he with hmem' | hnew
        · exact Or.inl hmem'
        · obtain rfl := List.mem_singleton.mp hnew
          exact Or.inr ⟨⟨k, hs⟩, σ.alloc.validPage hmem⟩
      case le => exact Nat.le_succ _
      case trades =>
        simp only [Executor.allocPage, ownedPages, hpages, List.map_append, List.map_cons,
          List.map_nil, ← Multiset.coe_add, Multiset.coe_singleton]
        rw [allocEvents_succ, add_right_comm, add_comm _ {_}, Multiset.singleton_add]
        exact trades_allocPage hmem

theorem foldl_executeReq {reqs : List PageEntry} (h : Keeps σ x)
    (hmem : x.allocated + reqs.length ≤ σ.alloc.capacity)
    (hreqs : ∀ req ∈ reqs, ∃ k, σ.SlotAt req.page req.index k) :
    Moves σ x (reqs.foldl (Executor.executeReq σ.alloc) x) := by
  induction reqs generalizing x with
  | nil => exact .of_le h rfl le_rfl
  | cons req reqs ih =>
    obtain ⟨k, hs⟩ := hreqs req List.mem_cons_self
    rw [List.length_cons] at hmem
    have hone := Executor.allocated_executeReq_le σ.alloc x req
    have hfirst := h.executeReq (by omega) hs
    exact hfirst.trans (ih hfirst.keeps (by omega)
      fun req' hreq' => hreqs req' (List.mem_cons_of_mem _ hreq'))

theorem executeReqs (h : Keeps σ x) (hs : σ.SlotAt pt idx k)
    (hmem : x.allocated + n ≤ σ.alloc.capacity)
    (hexec : Executor.executeReqs σ.alloc x n (.newFromL1 pt idx) = .ok x') :
    Moves σ x x' ∧ x'.allocated ≤ x.allocated + n := by
  have hpos := position_newFromL1 ((h.table.nodes _).trans hs.node) idx
  obtain ⟨reqs, hgen, hlen, hreqs⟩ := h.table.requested_of_generateRequest hpos n
  rw [Executor.executeReqs, hgen] at hexec
  cases hexec
  have hcount := Executor.allocated_foldl_executeReq_le σ.alloc reqs x
  refine ⟨h.foldl_executeReq (by omega) fun req hreq => ?_, by omega⟩
  obtain ⟨slot, -, hslot, -⟩ := hreqs req hreq
  exact ⟨slot, hslot⟩

end Keeps

theorem isPrefetch_entries_of_polled (hpolled : x.Polled x')
    (hbit : PhysAddr.isPrefetch ((x.heap.node pt).entries idx) = true) :
    PhysAddr.isPrefetch ((x'.heap.node pt).entries idx) = true := by
  refine hpolled.invariant
    (I := fun y => PhysAddr.isPrefetch ((y.heap.node pt).entries idx) = true) ?_ hbit
  intro y e hy
  unfold Executor.poll
  split
  · split
    · exact hy
    · next v rest _ =>
        split
        · exact hy
        · by_cases hplace : pt = v.pt ∧ idx = v.idx
          · obtain ⟨rfl, rfl⟩ := hplace
            simp only [Heap.setEntry_node_self, PageTable.set_entries_self]
            exact PhysAddr.isPrefetch_encode v.userPage
          · dsimp only
            rw [Heap.setEntry_entries_of_ne]
            · exact hy
            · exact not_and_or.mp hplace
  · exact hy
  · exact hy

end Exec

/-! ## The child -/

namespace Child

def owned (c : Child) : Multiset ℕ := ownedPages c.root c.exec

/-- The child works on a table with proper words. -/
structure Kept (σ : Setup) (c : Child) : Prop where
  root : c.root = σ.root
  exec : Keeps σ c.exec

theorem Kept.wellFormed {σ : Setup} (h : c.Kept σ) :
    WellFormed c.exec.heap c.descriptor.pageTable.l4PageTable := by
  have hroot : c.descriptor.pageTable.l4PageTable = σ.root := h.root
  rw [hroot]
  exact h.exec.table.wellFormed

/-- From `c` to `c'` these events happen; the pages of `c'` and the pages in `more` are
owned then. -/
structure Passes (σ : Setup) (c c' : Child) (es : List (RefEvent ℕ)) (more : Multiset ℕ) :
    Prop where
  kept : c'.Kept σ
  trades : Trades c.owned (unusedPages σ.alloc c.exec.allocated) es (c'.owned + more)
    (unusedPages σ.alloc c'.exec.allocated)

def stepEvents (f : Features) (alloc : PageAllocator) (c : Child) :
    ChildAction → List (RefEvent ℕ)
  | .fault fault env => c.faultEvents f alloc fault env
  | .complete _ => []
  | .poll _ => []

section Steps

variable {σ : Setup} {f : Features} {c c' : Child} {addr : VirtAddr} {env : FaultEnv} {pt : Ptr}
  {idx : PageTableIndex} {k : ℕ} {w : PhysAddr} {r : Option ℕ}

theorem Passes.of_moves (hroot : c.root = σ.root) (hroot' : c'.root = σ.root)
    (h : Moves σ c.exec c'.exec) :
    Passes σ c c' (allocEvents σ.alloc c.exec.allocated c'.exec.allocated) 0 where
  kept := ⟨hroot', h.keeps⟩
  trades := by
    rw [add_zero, owned, owned, hroot, hroot']
    exact h.trades

theorem Kept.exists_slotAt (h : c.Kept σ) (hw : c.lookupPgTable addr = some w) :
    ∃ pt idx, c.descriptor.pageTable.findL1PageIdx c.exec.heap addr = some (pt, idx) ∧
      σ.SlotAt pt idx addr.pageKey ∧ (c.exec.heap.node pt).entries idx = w := by
  have hroot : c.descriptor.pageTable.l4PageTable = σ.root := h.root
  rw [lookupPgTable, translate_eq, hroot] at hw
  obtain ⟨pt, hs⟩ := h.exec.table.exists_slotAt hw
  refine ⟨pt, _, findL1PageIdx_eq_some.mpr ⟨?_, rfl⟩, hs, h.exec.table.entries_eq hs hw⟩
  rw [hroot, h.exec.table.nodes]
  exact hs.node

theorem Kept.takePrefetched (h : c.Kept σ) (hs : σ.SlotAt pt idx k)
    (hbit : PhysAddr.isPrefetch ((c.exec.heap.node pt).entries idx) = true)
    (htake : c.takePrefetched addr pt idx env = .ok (c', r)) :
    ∃ page, r = some page ∧ page % 8 = 0 ∧
      Passes σ c c' (allocEvents σ.alloc c.exec.allocated c'.exec.allocated) {page} := by
  obtain ⟨x, hpolled, hready, rfl, rfl⟩ := takePrefetched_eq_ok htake
  have hlocal := isPrefetch_entries_of_polled hpolled hbit
  have hmoves := h.exec.moves_polled hpolled
  have hne : (x.heap.node pt).entries idx ≠ 0 := by
    intro hzero
    rw [hzero] at hlocal
    cases hlocal
  have hpages := hmoves.keeps.tablePages_setEntry hs 0
  rw [lookupTable_eq_some.mpr ⟨rfl, hne⟩, heldPages_of_ne_mark hlocal hready, if_pos rfl,
    heldPages_none, add_zero] at hpages
  refine ⟨_, rfl, decode_mod _, ⟨h.root, ?_⟩, ?_⟩
  · exact hmoves.keeps.write hs (fun hzero => absurd rfl hzero) rfl fun e he => Or.inl he
  · have htrades := hmoves.trades
    rw [ownedPages, ownedPages, ← hpages, ← add_assoc] at htrades
    rw [owned, owned, h.root]
    change Trades _ _ _ (ownedPages c.root _ + _) _
    rw [h.root]
    exact htrades

theorem Kept.demandRead (h : c.Kept σ) (hs : σ.SlotAt pt idx k)
    (hmem : c.exec.allocated + prefetchStep + 1 ≤ σ.alloc.capacity) {x x' : Executor}
    {es es' : List CqEvent}
    (hexec : (c.exec.allocPage σ.alloc).1.executeReqs σ.alloc prefetchStep (.newFromL1 pt idx) =
      .ok x) (hpoll : pollPrefetcher x es = .ok (x', es')) :
    x'.allocated ≤ c.exec.allocated + prefetchStep + 1 ∧
      Passes σ c { c with exec := x' } (allocEvents σ.alloc c.exec.allocated x'.allocated)
        {σ.alloc.page c.exec.allocated} := by
  have hkeeps : Keeps σ (c.exec.allocPage σ.alloc).1 := h.exec.congr rfl rfl
  have hcount : (c.exec.allocPage σ.alloc).1.allocated = c.exec.allocated + 1 := rfl
  obtain ⟨hmoves, hle⟩ := hkeeps.executeReqs hs (by omega) hexec
  have hpolls := hmoves.keeps.moves_polled (polled_pollLoop hpoll)
  have hboth := hmoves.trans hpolls
  have hmore : c.exec.allocated + 1 ≤ x'.allocated := hboth.le
  refine ⟨by rw [allocated_pollLoop hpoll]; omega, ⟨h.root, hpolls.keeps⟩, ?_⟩
  have hfirst : c.exec.allocated < σ.alloc.capacity := by omega
  have htrades := trades_allocPage (o := c.owned) hfirst
  rw [← allocEvents_append σ.alloc (Nat.le_succ _) hmore, allocEvents_succ]
  refine htrades.append ?_
  rw [← Multiset.singleton_add, add_comm]
  have hrest := hboth.trades.frame {σ.alloc.page c.exec.allocated}
  change Trades (ownedPages c.root _ + _) _ _ (ownedPages c.root _ + _) _
  rw [h.root]
  exact hrest

theorem Kept.readRemotePagePrefetch (h : c.Kept σ) (hw : c.lookupPgTable addr = some w)
    (hmem : c.exec.allocated + prefetchStep + 1 ≤ σ.alloc.capacity)
    (hread : c.readRemotePagePrefetch σ.alloc addr env = .ok (c', r)) :
    (∃ page, r = some page ∧ page % 8 = 0 ∧
      Passes σ c c' (allocEvents σ.alloc c.exec.allocated c'.exec.allocated) {page}) ∨
    (r = none ∧ c'.exec.allocated ≤ c.exec.allocated + prefetchStep + 1 ∧
      Passes σ c c' (allocEvents σ.alloc c.exec.allocated c'.exec.allocated ++
        [.put (σ.alloc.page c.exec.allocated)]) 0) := by
  obtain ⟨pt, idx, hfind, hs, hentry⟩ := h.exists_slotAt hw
  unfold Child.readRemotePagePrefetch at hread
  rw [hfind] at hread
  dsimp only at hread
  split at hread
  · next hbit => exact Or.inl (h.takePrefetched hs hbit hread)
  · simp only [bind, Except.bind] at hread
    split at hread
    · cases hread
    · split at hread
      · cases hread
      · next x hexec =>
          split at hread
          · cases hread
          · next x' hpoll =>
              obtain ⟨hcount, hpasses⟩ := h.demandRead hs hmem hexec hpoll
              have hpage : σ.alloc.page c.exec.allocated % 8 = 0 :=
                σ.alloc.aligned _ (by omega)
              rcases awaitRead_cases c x'.1 (c.demandRead (c.exec.allocPage σ.alloc).2
                ((c.exec.heap.node pt).entries idx)) env with
                ⟨qp, wc, -, hawait⟩ | ⟨qp, err, -, hawait⟩
              · rw [hawait] at hread
                cases hread
                refine Or.inl ⟨_, rfl, hpage, ⟨h.root, ?_⟩, hpasses.trades⟩
                exact hpasses.kept.exec.congr rfl rfl
              · rw [hawait] at hread
                cases hread
                refine Or.inr ⟨rfl, hcount, ⟨h.root, hpasses.kept.exec⟩, hpasses.trades.append ?_⟩
                rw [add_zero, add_comm, Multiset.singleton_add]
                exact trades_put

theorem Kept.cachePage (h : c.Kept σ) (hpt : σ.node (addr.pageKey / 512) = some pt)
    (hpage : page % 8 = 0) :
    (c.cachePage addr page).Kept σ ∧ (c.cachePage addr page).owned ≤ c.owned := by
  have hs : σ.SlotAt pt (.newTruncate addr.pageKey) addr.pageKey := ⟨hpt, rfl⟩
  have hroot : c.descriptor.pageTable.l4PageTable = σ.root := h.root
  have hkept : (c.cachePage addr page).root = c.root :=
    (forceMap_spec (a := addr) h.wellFormed (PhysAddr.encode page PhysAddrBitFlag.cache.bits)).1
  have hheap : (c.cachePage addr page).exec.heap = _ := h.exec.table.forceMap_eq hroot hpt _
  refine ⟨⟨hkept.trans h.root, ?_⟩, ?_⟩
  · exact h.exec.write hs (fun _ => .cached hpage rfl) hheap fun e he => Or.inl he
  · have hle := h.exec.tablePages_le hs (PhysAddr.encode page PhysAddrBitFlag.cache.bits)
    rw [if_neg (by rw [PhysAddr.encode_eq hpage .cache]; exact Nat.succ_ne_zero _),
      heldPages_of_not_isPrefetch (isPrefetch_cached hpage), add_zero, ← hheap] at hle
    rw [owned, owned, hkept, h.root]
    exact add_le_add le_rfl hle

theorem Kept.faultWithoutPage (h : c.Kept σ) (hmem : c.exec.allocated < σ.alloc.capacity)
    (vmaStart : UInt64) :
    Passes σ c (c.faultWithoutPage σ.alloc vmaStart).1 (c.faultWithoutPageEvents σ.alloc vmaStart)
      (handedPages (c.faultWithoutPageEvents σ.alloc vmaStart)) := by
  unfold Child.faultWithoutPage faultWithoutPageEvents
  split
  · exact ⟨⟨h.root, h.exec.congr rfl rfl⟩, trades_newPage hmem⟩
  · exact ⟨h, .lose (by simp [handedPages])⟩

theorem Kept.cachedPage (h : c.Kept σ) (hmem : c.exec.allocated < σ.alloc.capacity)
    (hro : PhysAddr.isRo w = false) :
    Passes σ c (c.cachedPage σ.alloc w).1 (c.cachedPageEvents σ.alloc w)
      (handedPages (c.cachedPageEvents σ.alloc w)) := by
  unfold Child.cachedPage cachedPageEvents
  rw [if_neg (ne_true_of_eq_false hro), if_neg (ne_true_of_eq_false hro)]
  exact ⟨⟨h.root, h.exec.congr rfl rfl⟩, trades_newPage hmem⟩

theorem Kept.readEvents (hcache : f.pageCache = true) (h : c.Kept σ)
    (hw : c.lookupPgTable addr = some w) (hmem : HasMemory σ.alloc c)
    (hread : c.readRemotePagePrefetch σ.alloc addr env = .ok (c', r)) (vmaStart : UInt64) :
    Passes σ c
      (r.elim (c'.faultWithoutPage σ.alloc vmaStart).1 fun page => c'.cachePage addr page)
      (c.readEvents f σ.alloc c' vmaStart r)
      (handedPages (c.readEvents f σ.alloc c' vmaStart r)) := by
  have hbound : c.exec.allocated + prefetchStep + 2 ≤ σ.alloc.capacity := hmem
  rcases h.readRemotePagePrefetch hw (by omega) hread with
    ⟨page, rfl, hpage, hpasses⟩ | ⟨rfl, hcount, hpasses⟩
  · obtain ⟨pt, idx, -, hs, -⟩ := h.exists_slotAt hw
    obtain ⟨hkept, hle⟩ := hpasses.kept.cachePage hs.node hpage
    have hmem' : page ∈ c'.owned + {page} := by simp
    have hget : Trades (c'.owned + {page}) (unusedPages σ.alloc c'.exec.allocated)
        [.hand page, .get page] (page ::ₘ (c'.owned + {page}))
        (unusedPages σ.alloc c'.exec.allocated) := (trades_hand hmem').append (trades_get hmem')
    simp only [Child.readEvents, hcache, if_true, handedPages_append, handedPages_allocEvents]
    refine ⟨hkept, hpasses.trades.append (hget.weaken ?_ subset_rfl)⟩
    -- the reference of the cache is never given back
    exact (add_le_add hle le_rfl).trans (Multiset.le_cons_self _ _)
  · have hrest := hpasses.kept.faultWithoutPage (by omega) vmaStart
    simp only [Child.readEvents, handedPages_append, handedPages_allocEvents]
    rw [List.append_cons]
    have hafter := hrest.trades
    rw [← add_zero c'.owned] at hafter
    exact ⟨hrest.kept, hpasses.trades.append hafter⟩

/-- Every fault hands out pages that the child or nobody owns. -/
theorem Kept.faultStep (hf : f.prefetch = true) (hcache : f.pageCache = true) (h : c.Kept σ)
    (hmem : HasMemory σ.alloc c) (fault : Fault) (env : FaultEnv) :
    Passes σ c (c.faultStep f σ.alloc fault env).1 (c.faultEvents f σ.alloc fault env)
      (handedPages (c.faultEvents f σ.alloc fault env)) := by
  have hbound : c.exec.allocated + prefetchStep + 2 ≤ σ.alloc.capacity := hmem
  unfold Child.faultStep faultEvents
  cases hw : c.lookupPgTable fault.address with
  | none =>
    have hfault : c.handlePageFault f σ.alloc fault env =
        .ok (c.faultWithoutPage σ.alloc fault.vmaStart) := by
      rw [handlePageFault, hw]
    rw [hfault]
    exact h.faultWithoutPage (by omega) fault.vmaStart
  | some w =>
    dsimp only
    cases hhit : f.pageCache && PhysAddr.isCache w with
    | true =>
      have hfault : c.handlePageFault f σ.alloc fault env =
          .ok ((c.cachedPage σ.alloc w).1, .installed (c.cachedPage σ.alloc w).2) := by
        rw [handlePageFault, hw]
        exact if_pos hhit
      rw [hfault, if_pos rfl]
      have hword : nodeAt c.exec.heap σ.root 4 fault.address.pageKey = some w := by
        rw [← hw, lookupPgTable, translate_eq, ← h.root]
        rfl
      obtain ⟨-, hcached⟩ := Bool.and_eq_true_iff.mp hhit
      exact h.cachedPage (by omega) ((h.exec.words _ w hword).isRo_of_isCache hcached)
    | false =>
      rw [if_neg (by simp)]
      cases hread : c.readPage f σ.alloc fault.address env with
      | error halt =>
        have hfault : c.handlePageFault f σ.alloc fault env = .error halt := by
          rw [handlePageFault, hw]
          dsimp only
          rw [if_neg (ne_true_of_eq_false hhit), hread]
          rfl
        rw [hfault]
        exact ⟨h, .lose (by simp [handedPages])⟩
      | ok res =>
        obtain ⟨c', page⟩ := res
        rw [handlePageFault_of_miss hw hhit hread]
        rw [Child.readPage, if_pos hf] at hread
        have hpasses := h.readEvents hcache hw hmem hread fault.vmaStart
        cases page with
        | none => exact hpasses
        | some page =>
          simp only [Option.elim, hcache, if_true] at hpasses ⊢
          exact hpasses

theorem Kept.step (hf : f.prefetch = true) (hcache : f.pageCache = true) (h : c.Kept σ)
    (hmem : HasMemory σ.alloc c) (a : ChildAction) :
    Passes σ c ((childMachine f σ.alloc).step c a).1 (c.stepEvents f σ.alloc a)
      (handedPages (c.stepEvents f σ.alloc a)) := by
  cases a with
  | fault fault env => exact h.faultStep hf hcache hmem fault env
  | complete status => exact ⟨⟨h.root, h.exec.congr rfl rfl⟩, .lose (add_zero c.owned).le⟩
  | poll e =>
    have hmoves := h.exec.moves_polled (c.exec.polled_poll e)
    have hstep : (c.pollOnce e).1 = { c with exec := (c.exec.poll e).1 } := by
      unfold Child.pollOnce
      split
      · next heq => rw [heq]
      · next heq => rw [heq]
    have hpasses : Passes σ c { c with exec := (c.exec.poll e).1 } _ 0 :=
      .of_moves h.root h.root hmoves
    change Passes σ c (c.pollOnce e).1 [] 0
    rw [hstep]
    rw [c.exec.allocated_poll e, allocEvents_self] at hpasses
    exact hpasses

end Steps

end Child

end Mitosis.PageFault
