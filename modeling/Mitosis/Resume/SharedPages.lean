import Mitosis.PageFault.Owners
import Mitosis.Resume.TableCache

/-!
# The pages of a machine whose children prefetch and share a cache

The children of a machine take their pages from one allocator, and a page belongs to
whoever has a reference to it: a process that has it mapped, a READ under way, or a slot
of a page table that it was read ahead into.  When a child exits, a copy of its page
table goes into the cache before the prefetcher is drained and the table itself is
dropped.  Both the copy and the table then hold the pages that were read ahead, and the
copy has the marks of the READs under way.

As long as no child exits with such a slot, every page is freed at most once, no freed
page is handed to a process, and no table of the cache has a mark.
-/

namespace Mitosis.Resume

open Support Descriptors OsNetwork Prefetcher RemoteMapping PageFault
open Support.RefCounts (Trades Backed)

/-! ## The machine -/

/-- A machine with the memory that its children share: the number of pages that were
allocated, their contents and references, and the pages that the process behind each
handler has mapped. -/
structure SharedNode where
  node : ResumeNode
  allocated : ℕ
  contents : ℕ → PageContent
  installed : ℕ → List ℕ
  pages : RefCounts ℕ

/-- A step of the machine, or a process that gives one of its pages back. -/
inductive SharedAction where
  | node (action : NodeAction)
  | unmap (handler i : ℕ)

namespace SharedNode

def boot (asyncPool : DCPool) : SharedNode :=
  ⟨.boot asyncPool, 0, fun _ => .unfilled, fun _ => [], .empty⟩

end SharedNode

def withMemory (s : SharedNode) (c : Child) : Child :=
  { c with exec := { c.exec with allocated := s.allocated, contents := s.contents } }

/-- The pages that the drop of a table frees.  A drop that meets a marked slot panics and
is not counted. -/
def droppedPages (table : Heap × RemotePageTable) : List ℕ :=
  match dropTable table.1 table.2 with
  | .ok pages => pages
  | .error _ => []

section Step

variable (f : Features) (L : Layout) (alloc : PageAllocator)

/-- The fetched table is dropped if the call fails, or if it is replaced by a cached
one. -/
def resumeDrops (s : SharedNode) (machineId handlerId : ℕ) (env : ResumeEnv) : List ℕ :=
  match env.reply, env.fetched with
  | some d, .ok (bytes, m) =>
    if d.ready then
      match ChildDescriptor.deserialize L Heap.empty bytes m,
          (syscallResumeWRpc f L s.node.ptCache s.node.asyncPool none machineId handlerId
            env).2.2 with
      | .ok (heap, des), .ok code =>
        if code = 0 ∧ (f.pageCache && (s.node.ptCache.lookup machineId handlerId).isSome) = false
        then []
        else droppedPages (heap, des.pageTable)
      | _, _ => []
    else []
  | _, _ => []

/-- Exit: the copy may replace an older table in the cache, which is dropped, and so is
the table of the child, as it is after the drain. -/
def exitDrops (s : SharedNode) (r : ResumeData) (polls : List CqEvent) : List ℕ :=
  let drained := if f.prefetch then r.child.exec.drainConnections polls
    else .ok (r.child.exec, .ok ())
  match drained with
  | .error _ => []
  | .ok (x, _) =>
    (if f.pageCache then
      ((s.node.ptCache.lookup r.remoteMacId r.handlerId).map droppedPages).getD []
    else []) ++ droppedPages (x.heap, r.child.descriptor.pageTable)

/-- What a step does to the pages.  The areas of a process are unmapped before its
handler is dropped. -/
def pageEvents (s : SharedNode) : SharedAction → List (RefEvent ℕ)
  | .node .open => []
  | .node (.resume handler machineId handlerId env) =>
    match s.node.handlers.lookup handler with
    | some none => (resumeDrops f L s machineId handlerId env).map .put
    | _ => []
  | .node (.child handler action) =>
    match s.node.handlers.lookup handler with
    | some (some r) => (withMemory s r.child).stepEvents f alloc action
    | _ => []
  | .node (.close handler polls) =>
    (s.installed handler).map .put ++
      match s.node.handlers.lookup handler with
      | some (some r) => (exitDrops f s r polls).map .put
      | _ => []
  | .unmap handler i => ((s.installed handler)[i]?).toList.map .put

/-- The state after an action of the child behind a handler, but for the references. -/
def childActs (s : SharedNode) (handler : ℕ) (r : ResumeData) (action : ChildAction) :
    SharedNode :=
  let c := withMemory s r.child
  let child := ((childMachine f alloc).step c action).1
  { s with
    node := { s.node with
      handlers := s.node.handlers.insert handler (some { r with child := child }) }
    allocated := child.exec.allocated
    contents := child.exec.contents
    installed := Function.update s.installed handler
      (s.installed handler ++ handedPages (c.stepEvents f alloc action)) }

/-- The next state, but for the references, and what the step shows. -/
def advance (s : SharedNode) : SharedAction → SharedNode × Option NodeOutput
  | .node (.child handler action) =>
    match s.node.handlers.lookup handler with
    | some (some r) =>
      (childActs f alloc s handler r action,
        some (.child ((childMachine f alloc).step (withMemory s r.child) action).2))
    | _ => (s, some .badHandler)
  | .node (.close handler polls) =>
    let (node, output) := (nodeMachine f L alloc).step s.node (.close handler polls)
    ({ s with node := node, installed := Function.update s.installed handler [] }, some output)
  | .node action =>
    let (node, output) := (nodeMachine f L alloc).step s.node action
    ({ s with node := node }, some output)
  | .unmap handler i =>
    ({ s with installed :=
        Function.update s.installed handler ((s.installed handler).eraseIdx i) }, none)

def sharedMachine : Machine SharedNode SharedAction (Option NodeOutput × List (RefEvent ℕ)) where
  step s a :=
    let (s', output) := advance f L alloc s a
    let events := pageEvents f L alloc s a
    ({ s' with pages := RefCounts.machine.run s.pages events }, output, events)

end Step

/-! ## What the children own -/

/-- The references of the child behind a handler. -/
def childPages (node : ResumeNode) (handler : ℕ) : Multiset ℕ :=
  match node.handlers.lookup handler with
  | some (some r) => r.child.owned
  | _ => 0

/-- The references of a child and its process. -/
def SharedNode.refs (s : SharedNode) (handler : ℕ) : Multiset ℕ :=
  (s.installed handler : Multiset ℕ) + childPages s.node handler

def SharedNode.owners (s : SharedNode) : Multiset ℕ :=
  ∑ handler ∈ Finset.range s.node.nextHandler, s.refs handler

/-- No page was read ahead into the table, and no READ for it is under way. -/
structure PlainTable (table : Heap × RemotePageTable) : Prop where
  wellFormed : WellFormed table.1 table.2.l4PageTable
  words : ∀ k w, nodeAt table.1 table.2.l4PageTable 4 k = some w →
    TableWord w ∧ PhysAddr.isPrefetch w = false

namespace PlainTable

variable {table : Heap × RemotePageTable} {f : Features} {cache : RemotePageTableCache}
  {machineId handlerId : ℕ}

theorem tablePages_eq_zero (h : PlainTable table) :
    tablePages table.1 table.2.l4PageTable = 0 := by
  unfold tablePages
  refine pagesBelow_eq_zero fun slot _ => ?_
  cases hword : nodeAt table.1 table.2.l4PageTable 4 slot with
  | none => rfl
  | some w => exact heldPages_of_not_isPrefetch (h.words slot w hword).2

theorem copy (h : PlainTable table) : PlainTable (table.2.copy table.1) where
  wellFormed := (copy_spec h.wellFormed).1
  words k w hw := by
    rw [(copy_spec h.wellFormed).2] at hw
    exact h.words k w hw

theorem startTable (h : PlainTable table)
    (hcache : ∀ cached, cache.lookup machineId handlerId = some cached → PlainTable cached) :
    PlainTable (startTable f cache machineId handlerId table) := by
  unfold Resume.startTable
  split
  · split
    · next hcached => exact (hcache _ hcached).copy
    · exact h
  · exact h

end PlainTable

variable {table : Heap × RemotePageTable}

theorem droppedPages_le (hl : Linked table.1 table.2.l4PageTable) :
    (droppedPages table : Multiset ℕ) ≤ tablePages table.1 table.2.l4PageTable := by
  unfold droppedPages
  split
  · next pages hdrop => exact (coe_dropTable hl hdrop).le
  · exact Multiset.zero_le _

theorem PlainTable.droppedPages_eq_nil (h : PlainTable table) :
    droppedPages table = [] := by
  have hle := droppedPages_le h.wellFormed.toLinked
  rw [h.tablePages_eq_zero, Multiset.le_zero] at hle
  exact (Multiset.coe_eq_zero _).mp hle

/-! ## Every run -/

/-- A resumed child fetches words as a parent writes them, without the two bits that mark
local pages. -/
def FetchesPlain (L : Layout) : SharedAction → Prop
  | .node (.resume _ _ _ env) => ∀ heap des, Fetched L env heap des → ∀ a w,
      des.pageTable.translate heap a = some w →
        PhysAddr.isPrefetch w = false ∧ PhysAddr.isCache w = false
  | _ => True

/-- A child that acts finds memory. -/
def HasMemory (alloc : PageAllocator) (s : SharedNode) : SharedAction → Prop
  | .node (.child _ _) => s.allocated + prefetchStep + 2 ≤ alloc.capacity
  | _ => True

instance (alloc : PageAllocator) (s : SharedNode) : DecidablePred (HasMemory alloc s) :=
  fun a => by
    unfold HasMemory
    split <;> infer_instance

/-- No child exits with a page in its table that was read ahead, or while a READ for its
table is under way. -/
def ExitsSettled (s : SharedNode) : SharedAction → Prop
  | .node (.close handler _) => ∀ r, s.node.handlers.lookup handler = some (some r) →
      ∀ a w, r.child.lookupPgTable a = some w → PhysAddr.isPrefetch w = false
  | _ => True

/-- A page is handed to a process only while it is not freed. -/
def HandsLive (f : Features) (L : Layout) (alloc : PageAllocator) (s : SharedNode)
    (a : SharedAction) : Prop :=
  RefCounts.machine.Always RefCounts.Live s.pages (pageEvents f L alloc s a)

instance (f : Features) (L : Layout) (alloc : PageAllocator) (s : SharedNode)
    (a : SharedAction) : Decidable (HandsLive f L alloc s a) :=
  inferInstanceAs (Decidable (RefCounts.machine.Always RefCounts.Live s.pages _))

/-- No table of the cache has the mark of a READ under way. -/
def NoMarkCached (s : SharedNode) : Prop :=
  ∀ id table, s.node.ptCache.store.lookup id = some table →
    ∀ a, table.2.translate table.1 a ≠ some kMagicInPrefetch

/-- What a run keeps: the children work on proper tables, the tables of the cache are
plain, and every reference is accounted for. -/
structure Accounts (alloc : PageAllocator) (s : SharedNode) : Prop where
  children : ∀ h r, s.node.handlers.lookup h = some (some r) →
    ∃ σ : Setup, σ.alloc = alloc ∧ r.child.Kept σ
  cached : ∀ id table, s.node.ptCache.store.lookup id = some table → PlainTable table
  unopened : ∀ h, s.node.nextHandler ≤ h →
    s.node.handlers.lookup h = none ∧ s.installed h = []
  backed : Backed s.pages s.owners (unusedPages alloc s.allocated)

section Steps

variable {f : Features} {L : Layout} {alloc : PageAllocator} {s s' : SharedNode}
  {handler : ℕ} {es : List (RefEvent ℕ)}

variable {env : ResumeEnv}

theorem Accounts.lt_of_lookup (inv : Accounts alloc s) {data : Option ResumeData}
    (h : s.node.handlers.lookup handler = some data) : handler < s.node.nextHandler := by
  by_contra hle
  rw [(inv.unopened handler (Nat.le_of_not_lt hle)).1] at h
  cases h

/-- A step that changes what is behind one handler keeps the accounts, if its events make
the old references of the handler the new ones. -/
theorem Accounts.change (inv : Accounts alloc s) (hlt : handler < s.node.nextHandler)
    (hnext : s'.node.nextHandler = s.node.nextHandler)
    (hcached : ∀ id table, s'.node.ptCache.store.lookup id = some table → PlainTable table)
    (hothers : ∀ h, h ≠ handler → s'.node.handlers.lookup h = s.node.handlers.lookup h ∧
      s'.installed h = s.installed h)
    (hchild : ∀ r, s'.node.handlers.lookup handler = some (some r) →
      ∃ σ : Setup, σ.alloc = alloc ∧ r.child.Kept σ)
    (hpages : s'.pages = RefCounts.machine.run s.pages es)
    (htrades : Trades (s.refs handler) (unusedPages alloc s.allocated) es (s'.refs handler)
      (unusedPages alloc s'.allocated)) :
    Accounts alloc s' ∧ RefCounts.machine.Always RefCounts.Live s.pages es := by
  have hmem := Finset.mem_range.mpr hlt
  have hrest : ∑ h ∈ (Finset.range s.node.nextHandler).erase handler, s'.refs h =
      ∑ h ∈ (Finset.range s.node.nextHandler).erase handler, s.refs h := by
    refine Finset.sum_congr rfl fun h hh => ?_
    obtain ⟨hlookup, hinstalled⟩ := hothers h (Finset.ne_of_mem_erase hh)
    rw [SharedNode.refs, SharedNode.refs, childPages, childPages, hlookup, hinstalled]
  have hbacked := inv.backed
  rw [SharedNode.owners, ← Finset.add_sum_erase _ _ hmem] at hbacked
  obtain ⟨hbacked', hlive⟩ := htrades s.pages _ hbacked
  refine ⟨⟨?_, hcached, ?_, ?_⟩, hlive⟩
  · intro h r hr
    by_cases hh : h = handler
    · exact hchild r (hh ▸ hr)
    · rw [(hothers h hh).1] at hr
      exact inv.children h r hr
  · intro h hh
    rw [hnext] at hh
    obtain ⟨hlookup, hinstalled⟩ := hothers h (hlt.trans_le hh).ne'
    rw [hlookup, hinstalled]
    exact inv.unopened h hh
  · rw [hpages, SharedNode.owners, hnext, ← Finset.add_sum_erase _ _ hmem, hrest]
    exact hbacked'

theorem PlainTable.startChild (h : PlainTable table)
    (alloc : PageAllocator) (des : ChildDescriptor) (info : RemotePaging.AccessInfo)
    (prefetcher : Option (ℕ × RemotePaging.AccessInfo)) :
    (∃ σ : Setup, σ.alloc = alloc ∧ (startChild table des info prefetcher).Kept σ) ∧
      (startChild table des info prefetcher).owned = 0 := by
  have hstart : ∀ c : Child, c.exec.heap = table.1 → c.root = table.2.l4PageTable →
      c.exec.prefetcher.pendingQueues = [] →
      (∃ σ : Setup, σ.alloc = alloc ∧ c.Kept σ) ∧ c.owned = 0 := by
    intro c hheap hroot hpending
    refine ⟨⟨c.setup alloc (fun _ => True) trivial, rfl, rfl, ⟨?_, ?_, ?_⟩⟩, ?_⟩
    · refine ⟨?_, fun _ => rfl, fun _ => rfl⟩
      change WellFormed c.exec.heap c.root
      rw [hheap, hroot]
      exact h.wellFormed
    · intro k w hw
      change nodeAt c.exec.heap c.root 4 k = some w at hw
      rw [hheap, hroot] at hw
      exact (h.words k w hw).1
    · simp [hpending]
    · rw [Child.owned, ownedPages, hpending, hheap, hroot, h.tablePages_eq_zero]
      rfl
  cases prefetcher with
  | none => exact hstart _ rfl rfl rfl
  | some p => exact hstart _ rfl rfl rfl

theorem plainTable_of_fetched {heap : Heap} {des : ChildDescriptor}
    (hfetched : Fetched L env heap des)
    (hwords : ∀ a w, des.pageTable.translate heap a = some w →
      PhysAddr.isPrefetch w = false ∧ PhysAddr.isCache w = false) :
    PlainTable (heap, des.pageTable) where
  wellFormed := hfetched.wellFormed
  words k w hw := by
    obtain ⟨hprefetch, hcache⟩ := hwords (VirtAddr.ofPageKey k) w (translate_of_nodeAt hw)
    exact ⟨.remote hprefetch hcache, hprefetch⟩

theorem Accounts.open (inv : Accounts alloc s) :
    Accounts alloc ((sharedMachine f L alloc).step s (.node .open)).1 where
  children h r hr := by
    rcases lookup_insert_cases hr with ⟨-, heq⟩ | hold
    · cases heq
    · exact inv.children h r hold
  cached := inv.cached
  unopened h hh := by
    have hle : s.node.nextHandler + 1 ≤ h := hh
    obtain ⟨hlookup, hinstalled⟩ := inv.unopened h (by omega)
    refine ⟨?_, hinstalled⟩
    change (s.node.handlers.insert s.node.nextHandler none).lookup h = none
    rw [lookup_insert_eq, if_neg (by omega), hlookup]
  backed := by
    have hnew : ((sharedMachine f L alloc).step s (.node .open)).1.refs s.node.nextHandler = 0 := by
      have hinstalled := (inv.unopened s.node.nextHandler le_rfl).2
      simp [SharedNode.refs, sharedMachine, advance, nodeMachine, hinstalled, childPages]
    have hold : ∀ h ∈ Finset.range s.node.nextHandler,
        ((sharedMachine f L alloc).step s (.node .open)).1.refs h = s.refs h := by
      intro h hh
      have hne : h ≠ s.node.nextHandler := (Finset.mem_range.mp hh).ne
      simp [SharedNode.refs, sharedMachine, advance, nodeMachine, childPages, hne]
    have howners : ((sharedMachine f L alloc).step s (.node .open)).1.owners = s.owners := by
      rw [SharedNode.owners, SharedNode.owners, ← Finset.sum_congr rfl hold]
      change ∑ h ∈ Finset.range (s.node.nextHandler + 1), _ = _
      rw [Finset.sum_range_succ, hnew, add_zero]
    rw [howners]
    exact inv.backed

theorem resumeDrops_eq_nil {machineId handlerId : ℕ}
    (hplain : ∀ heap des, Fetched L env heap des → PlainTable (heap, des.pageTable)) :
    resumeDrops f L s machineId handlerId env = [] := by
  unfold resumeDrops
  split
  · next bytes m _ hfetched =>
      split
      · split
        · next heap des _ hdes _ =>
            split
            · rfl
            · exact (hplain heap des ⟨bytes, m, hfetched, hdes⟩).droppedPages_eq_nil
        · rfl
      · rfl
  · rfl

theorem Accounts.resume (inv : Accounts alloc s) {machineId handlerId : ℕ}
    (hwords : FetchesPlain L (.node (.resume handler machineId handlerId env))) :
    Accounts alloc ((sharedMachine f L alloc).step s
        (.node (.resume handler machineId handlerId env))).1 ∧
      HandsLive f L alloc s (.node (.resume handler machineId handlerId env)) := by
  have hplain : ∀ heap des, Fetched L env heap des → PlainTable (heap, des.pageTable) :=
    fun heap des hfetched => plainTable_of_fetched hfetched (hwords heap des hfetched)
  have hevents : pageEvents f L alloc s (.node (.resume handler machineId handlerId env)) = [] := by
    dsimp only [pageEvents]
    split
    · rw [resumeDrops_eq_nil hplain]
      rfl
    · rfl
  dsimp only [HandsLive, sharedMachine]
  rw [hevents]
  cases hdata : s.node.handlers.lookup handler with
  | none =>
    simp only [advance, nodeMachine, hdata]
    exact ⟨inv, trivial⟩
  | some data =>
    simp only [advance, nodeMachine, hdata]
    -- a handler that gets a child had none, and the child starts without references
    have hnew : ∀ r, (syscallResumeWRpc f L s.node.ptCache s.node.asyncPool data machineId
        handlerId env).2.1 = some r →
        (∃ σ : Setup, σ.alloc = alloc ∧ r.child.Kept σ) ∧
          r.child.owned = childPages s.node handler := by
      intro r hr
      rw [childPages, hdata]
      cases data with
      | some r' =>
        obtain rfl : r' = r := Option.some.inj hr
        exact ⟨inv.children handler r' hdata, rfl⟩
      | none =>
        obtain ⟨heap, des, info, prefetcher, hfetched, rfl⟩ := eq_of_syscallResumeWRpc hr
        exact ((hplain heap des hfetched).startTable fun cached hcached =>
          inv.cached _ cached hcached).startChild alloc des info prefetcher
    refine inv.change (inv.lt_of_lookup hdata) rfl inv.cached (fun h hne => ⟨?_, rfl⟩) ?_ rfl
      (.lose ?_)
    · exact AList.lookup_insert_ne hne
    · intro r hr
      rw [AList.lookup_insert] at hr
      exact (hnew r (Option.some.inj hr)).1
    · rw [SharedNode.refs, childPages, AList.lookup_insert]
      cases hr : (syscallResumeWRpc f L s.node.ptCache s.node.asyncPool data machineId
          handlerId env).2.1 with
      | none => exact add_le_add le_rfl (Multiset.zero_le _)
      | some r => exact add_le_add le_rfl (hnew r hr).2.le

theorem Accounts.child (hf : f.prefetch = true) (hcache : f.pageCache = true)
    (inv : Accounts alloc s) {action : ChildAction}
    (hmemory : HasMemory alloc s (.node (.child handler action))) :
    Accounts alloc ((sharedMachine f L alloc).step s (.node (.child handler action))).1 ∧
      HandsLive f L alloc s (.node (.child handler action)) := by
  dsimp only [sharedMachine, advance, HandsLive, pageEvents]
  cases hdata : s.node.handlers.lookup handler with
  | none => exact ⟨inv, trivial⟩
  | some data =>
    cases data with
    | none => exact ⟨inv, trivial⟩
    | some r =>
      obtain ⟨σ, rfl, hkept⟩ := inv.children handler r hdata
      have hloaded : (withMemory s r.child).Kept σ := ⟨hkept.root, hkept.exec.congr rfl rfl⟩
      have hpasses := hloaded.step hf hcache hmemory action
      refine inv.change (inv.lt_of_lookup hdata) rfl inv.cached (fun h hne => ⟨?_, ?_⟩) ?_ rfl ?_
      · exact AList.lookup_insert_ne hne
      · exact Function.update_of_ne hne _ _
      · intro r' hr'
        cases (AList.lookup_insert s.node.handlers).symm.trans hr'
        exact ⟨σ, rfl, hpasses.kept⟩
      · dsimp only [SharedNode.refs, childPages, childActs]
        rw [AList.lookup_insert, Function.update_self, hdata, ← Multiset.coe_add,
          add_assoc, add_comm, add_comm _ (_ + _), add_comm (handedPages _ : Multiset ℕ)]
        exact hpasses.trades.frame _

theorem Accounts.unmap (inv : Accounts alloc s) (i : ℕ) :
    Accounts alloc ((sharedMachine f L alloc).step s (.unmap handler i)).1 ∧
      HandsLive f L alloc s (.unmap handler i) := by
  dsimp only [sharedMachine, advance, HandsLive, pageEvents]
  cases hpage : (s.installed handler)[i]? with
  | none =>
    have hle := List.getElem?_eq_none_iff.mp hpage
    rw [List.eraseIdx_of_length_le hle, Function.update_eq_self]
    exact ⟨inv, trivial⟩
  | some page =>
    have hlt : handler < s.node.nextHandler := by
      by_contra hle
      rw [(inv.unopened handler (Nat.le_of_not_lt hle)).2] at hpage
      cases hpage
    refine inv.change hlt rfl inv.cached (fun h hne => ⟨rfl, Function.update_of_ne hne _ _⟩)
      (inv.children handler) rfl ?_
    obtain ⟨hi, rfl⟩ := List.getElem?_eq_some_iff.mp hpage
    dsimp only [SharedNode.refs]
    rw [Function.update_self, ← Multiset.coe_eq_coe.mpr (List.getElem_cons_eraseIdx_perm hi),
      ← Multiset.cons_coe, Multiset.cons_add]
    exact RefCounts.trades_put

/-! ### Exits -/

variable {r : ResumeData} {polls : List CqEvent}

theorem PlainTable.of_child {σ : Setup} {c : Child} (h : c.Kept σ)
    (hplain : ∀ a w, c.lookupPgTable a = some w → PhysAddr.isPrefetch w = false) :
    PlainTable (c.exec.heap, c.descriptor.pageTable) where
  wellFormed := h.wellFormed
  words k w hw := by
    have hroot : c.descriptor.pageTable.l4PageTable = σ.root := h.root
    exact ⟨h.exec.words k w (hroot ▸ hw), hplain (VirtAddr.ofPageKey k) w (translate_of_nodeAt hw)⟩

theorem Accounts.exitDrops_le (hf : f.prefetch = true) (inv : Accounts alloc s)
    (hr : s.node.handlers.lookup handler = some (some r)) :
    (exitDrops f s r polls : Multiset ℕ) ≤ r.child.owned := by
  obtain ⟨σ, -, hkept⟩ := inv.children handler r hr
  have hroot : r.child.descriptor.pageTable.l4PageTable = σ.root := hkept.root
  unfold exitDrops
  rw [if_pos hf]
  dsimp only
  split
  · exact Multiset.zero_le _
  · next x _ hdrain =>
      have hreplaced : (if f.pageCache then
          ((s.node.ptCache.lookup r.remoteMacId r.handlerId).map droppedPages).getD []
          else []) = [] := by
        split
        · cases hcached : s.node.ptCache.lookup r.remoteMacId r.handlerId with
          | none => rfl
          | some table => exact (inv.cached _ table hcached).droppedPages_eq_nil
        · rfl
      obtain ⟨hkeeps, -, hle⟩ := hkept.exec.polled (Executor.polled_drainLoop hdrain)
      have hlinked := hkeeps.table.wellFormed.toLinked
      rw [← hroot] at hlinked hle
      rw [hreplaced, List.nil_append]
      calc (droppedPages (x.heap, r.child.descriptor.pageTable) : Multiset ℕ)
          ≤ tablePages x.heap r.child.descriptor.pageTable.l4PageTable := droppedPages_le hlinked
        _ ≤ ownedPages r.child.descriptor.pageTable.l4PageTable x := Multiset.le_add_left _ _
        _ ≤ r.child.owned := hle

theorem Accounts.cacheMyPt (inv : Accounts alloc s)
    (hr : s.node.handlers.lookup handler = some (some r))
    (hsettled : ExitsSettled s (.node (.close handler polls))) :
    ∀ id table, (cacheMyPt f s.node.ptCache (some r)).store.lookup id = some table →
      PlainTable table := by
  obtain ⟨σ, -, hkept⟩ := inv.children handler r hr
  intro id table hlookup
  dsimp only [Resume.cacheMyPt] at hlookup
  split at hlookup
  · rcases lookup_insert_cases hlookup with ⟨-, rfl⟩ | hold
    · exact (PlainTable.of_child hkept (hsettled r hr)).copy
    · exact inv.cached id table hold
  · exact inv.cached id table hlookup

/-- An exit leaves every word of the child to the cache, those of the READs under way and of
the pages that were read ahead included. -/
theorem Accounts.words_of_close (hcache : f.pageCache = true) (inv : Accounts alloc s)
    (hr : s.node.handlers.lookup handler = some (some r)) {cache : RemotePageTableCache}
    {pool : DCPool}
    (hdrop : Resume.drop f s.node.ptCache s.node.asyncPool (some r) polls = .ok (cache, pool))
    (machineId : ℕ) :
    ∃ table, ((sharedMachine f L alloc).step s (.node (.close handler polls))).1.node.ptCache.lookup
        machineId r.handlerId = some table ∧ WellFormed table.1 table.2.l4PageTable ∧
      ∀ a, table.2.translate table.1 a = r.child.lookupPgTable a := by
  obtain ⟨σ, -, hkept⟩ := inv.children handler r hr
  have hw := hkept.wellFormed
  have hcached : ((nodeMachine f L alloc).step s.node (.close handler polls)).1.ptCache.lookup
      machineId r.handlerId = _ := ptCache_close hcache hr hdrop machineId
  exact ⟨_, hcached, (copy_spec hw).1, translate_copy hw⟩

theorem close_cases (L : Layout) (alloc : PageAllocator) (hf : f.prefetch = true)
    (hr : s.node.handlers.lookup handler = some (some r)) :
    (exitDrops f s r polls = [] ∧
      ((nodeMachine f L alloc).step s.node (.close handler polls)).1 = s.node) ∨
    ∃ pool, ((nodeMachine f L alloc).step s.node (.close handler polls)).1 =
      { s.node with
        asyncPool := pool
        ptCache := Resume.cacheMyPt f s.node.ptCache (some r)
        handlers := s.node.handlers.erase handler } := by
  unfold exitDrops
  rw [if_pos hf]
  simp only [nodeMachine, hr, Resume.drop, hf, if_true]
  cases r.child.exec.drainConnections polls with
  | error halt => exact Or.inl ⟨rfl, rfl⟩
  | ok drained =>
    obtain ⟨x, err | done⟩ := drained
    · exact Or.inr ⟨_, rfl⟩
    · exact Or.inr ⟨_, rfl⟩

theorem Accounts.release (inv : Accounts alloc s) (hlt : handler < s.node.nextHandler)
    (node : ResumeNode) (drops : List ℕ) (hnext : node.nextHandler = s.node.nextHandler)
    (hcached : ∀ id table, node.ptCache.store.lookup id = some table → PlainTable table)
    (hothers : ∀ h, h ≠ handler → node.handlers.lookup h = s.node.handlers.lookup h)
    (hchild : ∀ r, node.handlers.lookup handler = some (some r) →
      s.node.handlers.lookup handler = some (some r))
    (hdrops : (drops : Multiset ℕ) + childPages node handler ≤ childPages s.node handler) :
    Accounts alloc { s with
        node := node
        installed := Function.update s.installed handler []
        pages := RefCounts.machine.run s.pages
          ((s.installed handler).map .put ++ drops.map .put) } ∧
      RefCounts.machine.Always RefCounts.Live s.pages
        ((s.installed handler).map .put ++ drops.map .put) := by
  refine inv.change hlt hnext hcached
    (fun h hne => ⟨hothers h hne, Function.update_of_ne hne _ _⟩)
    (fun r hr => inv.children handler r (hchild r hr)) rfl ?_
  dsimp only [SharedNode.refs]
  rw [Function.update_self, Multiset.coe_nil, zero_add]
  exact (RefCounts.trades_puts _).append ((RefCounts.trades_puts drops).of_le hdrops)

theorem Accounts.close (hf : f.prefetch = true) (inv : Accounts alloc s)
    (hsettled : ExitsSettled s (.node (.close handler polls))) :
    Accounts alloc ((sharedMachine f L alloc).step s (.node (.close handler polls))).1 ∧
      HandsLive f L alloc s (.node (.close handler polls)) := by
  have herased : ∀ r, (s.node.handlers.erase handler).lookup handler ≠ some (some r) := by
    simp [AList.lookup_erase]
  dsimp only [sharedMachine, advance, HandsLive, pageEvents]
  cases hdata : s.node.handlers.lookup handler with
  | none =>
    simp only [nodeMachine, hdata]
    by_cases hlt : handler < s.node.nextHandler
    · exact inv.release hlt s.node [] rfl inv.cached (fun _ _ => rfl) (fun _ hr => hr) (by simp)
    · have hnil := (inv.unopened handler (Nat.le_of_not_lt hlt)).2
      rw [← hnil, Function.update_eq_self, hnil]
      exact ⟨inv, trivial⟩
  | some data =>
    have hlt := inv.lt_of_lookup hdata
    cases data with
    | none =>
      simp only [nodeMachine, hdata, Resume.drop, Resume.cacheMyPt]
      exact inv.release hlt { s.node with handlers := s.node.handlers.erase handler } [] rfl
        inv.cached (fun _ hne => AList.lookup_erase_ne hne)
        (fun r hr => absurd hr (herased r)) (by simp [childPages, hdata])
    | some r =>
      dsimp only
      rcases close_cases L alloc hf hdata with ⟨hnone, hnode⟩ | ⟨pool, hnode⟩
      · rw [hnone, hnode]
        exact inv.release hlt s.node [] rfl inv.cached (fun _ _ => rfl) (fun _ hr => hr) (by simp)
      · rw [hnode]
        refine inv.release hlt _ _ rfl (inv.cacheMyPt hdata hsettled)
          (fun _ hne => AList.lookup_erase_ne hne) (fun r hr => absurd hr (herased r)) ?_
        rw [childPages, childPages, hdata]
        simpa using inv.exitDrops_le hf hdata

theorem accounts_boot (alloc : PageAllocator) (pool : DCPool) : Accounts alloc (.boot pool) where
  children h r hr := by simp [SharedNode.boot, ResumeNode.boot] at hr
  cached id table htable := by simp [SharedNode.boot, ResumeNode.boot] at htable
  unopened h _ := by simp [SharedNode.boot, ResumeNode.boot]
  backed := RefCounts.backed_empty _

/-- Every step keeps the accounts and hands out live pages only. -/
theorem Accounts.step (hf : f.prefetch = true) (hcache : f.pageCache = true)
    (inv : Accounts alloc s) {a : SharedAction} (hwords : FetchesPlain L a)
    (hmemory : HasMemory alloc s a) (hsettled : ExitsSettled s a) :
    Accounts alloc ((sharedMachine f L alloc).step s a).1 ∧ HandsLive f L alloc s a := by
  cases a with
  | node action =>
    cases action with
    | «open» => exact ⟨inv.open, trivial⟩
    | resume handler machineId handlerId env => exact inv.resume hwords
    | child handler action => exact inv.child hf hcache hmemory
    | close handler polls => exact inv.close hf hsettled
  | unmap handler i => exact inv.unmap i

theorem installed_child (s : SharedNode) (handler : ℕ) (action : ChildAction) :
    ((sharedMachine f L alloc).step s (.node (.child handler action))).1.installed handler =
      s.installed handler ++ handedPages (pageEvents f L alloc s (.node (.child handler action))) := by
  dsimp only [sharedMachine, advance, pageEvents]
  split
  · exact Function.update_self ..
  · exact (List.append_nil _).symm

theorem Accounts.run (hf : f.prefetch = true) (hcache : f.pageCache = true)
    (inv : Accounts alloc s) {as : List SharedAction} (hwords : ∀ a ∈ as, FetchesPlain L a)
    (hmemory : (sharedMachine f L alloc).Always (HasMemory alloc) s as)
    (hsettled : (sharedMachine f L alloc).Always ExitsSettled s as) :
    Accounts alloc ((sharedMachine f L alloc).run s as) ∧
      (sharedMachine f L alloc).Always (HandsLive f L alloc) s as := by
  have hstep : ∀ s a, Accounts alloc s →
      FetchesPlain L a ∧ HasMemory alloc s a ∧ ExitsSettled s a →
      Accounts alloc ((sharedMachine f L alloc).step s a).1 ∧ HandsLive f L alloc s a :=
    fun s a inv h => inv.step hf hcache h.1 h.2.1 h.2.2
  have hall := Machine.always_and.mpr ⟨Machine.always_of_forall_mem hwords s,
    Machine.always_and.mpr ⟨hmemory, hsettled⟩⟩
  exact ⟨Machine.invariant _ (fun s a inv h => (hstep s a inv h).1) inv hall,
    Machine.always_of_invariant _ hstep inv hall⟩

end Steps

/-- For every run of a machine with the `prefetch` and the `page-cache` feature in which
no child exits with a slot that is marked or holds a page that was read ahead: every page
is freed at most once, no page is handed to a process after it was freed, and no table in
the cache has a mark. -/
theorem shared_pages_safe {f : Features} (hf : f.prefetch = true) (hcache : f.pageCache = true)
    (L : Layout) (alloc : PageAllocator) (pool : DCPool) {as : List SharedAction}
    (hwords : ∀ a ∈ as, FetchesPlain L a)
    (hmemory : (sharedMachine f L alloc).Always (HasMemory alloc) (.boot pool) as)
    (hsettled : (sharedMachine f L alloc).Always ExitsSettled (.boot pool) as) :
    ((sharedMachine f L alloc).run (.boot pool) as).pages.freed.Nodup ∧
      (sharedMachine f L alloc).Always (HandsLive f L alloc) (.boot pool) as ∧
      NoMarkCached ((sharedMachine f L alloc).run (.boot pool) as) := by
  obtain ⟨hend, hlive⟩ := (accounts_boot alloc pool).run hf hcache hwords hmemory hsettled
  refine ⟨hend.backed.nodup, hlive, ?_⟩
  intro id table hlookup a hword
  rw [translate_eq] at hword
  have hplain := ((hend.cached id table hlookup).words _ _ hword).2
  cases hplain

/-! ## Tables with nothing to free -/

/-- The drop of the table of a child that exits finds nothing to free. -/
def ExitsEmpty (s : SharedNode) : SharedAction → Prop
  | .node (.close handler _) =>
    match s.node.handlers.lookup handler with
    | some (some r) => dropTable r.child.exec.heap r.child.descriptor.pageTable = .ok []
    | _ => True
  | _ => True

instance (s : SharedNode) : DecidablePred (ExitsEmpty s) := fun a => by
  unfold ExitsEmpty
  split
  · split <;> infer_instance
  · infer_instance

variable {s : SharedNode}

theorem Accounts.exitsSettled {alloc : PageAllocator} {a : SharedAction}
    (inv : Accounts alloc s) (h : ExitsEmpty s a) : ExitsSettled s a := by
  cases a with
  | unmap handler i => trivial
  | node action =>
    cases action with
    | «open» => trivial
    | resume handler machineId handlerId env => trivial
    | child handler action => trivial
    | close handler polls =>
      intro r hr addr w hw
      obtain ⟨σ, -, hkept⟩ := inv.children handler r hr
      rw [Child.lookupPgTable, translate_eq] at hw
      simp only [ExitsEmpty, hr] at h
      exact isPrefetch_of_dropTable hkept.wellFormed.toLinked h hw

theorem exitsSettled_of_exitsEmpty {f : Features} (hf : f.prefetch = true)
    (hcache : f.pageCache = true) {L : Layout} {alloc : PageAllocator} {pool : DCPool}
    {as : List SharedAction} (hwords : ∀ a ∈ as, FetchesPlain L a)
    (hmemory : (sharedMachine f L alloc).Always (HasMemory alloc) (.boot pool) as)
    (hempty : (sharedMachine f L alloc).Always ExitsEmpty (.boot pool) as) :
    (sharedMachine f L alloc).Always ExitsSettled (.boot pool) as := by
  refine Machine.always_of_invariant (Accounts alloc) ?_ (accounts_boot alloc pool)
    (Machine.always_and.mpr ⟨Machine.always_of_forall_mem hwords _,
      Machine.always_and.mpr ⟨hmemory, hempty⟩⟩)
  rintro s a inv ⟨hplain, hmem, hemp⟩
  have hsettled := inv.exitsSettled hemp
  exact ⟨(inv.step hf hcache hplain hmem hsettled).1, hsettled⟩

theorem fetchesPlain_of_parent {L : Layout} {handler machineId handlerId : ℕ} {env : ResumeEnv}
    (hwords : ∀ bytes m d, env.fetched = .ok (bytes, m) →
      ParentDescriptor.deserialize L bytes m = .ok d → ∀ t ∈ d.pageTable, ∀ e ∈ t.innerPgTable,
        PhysAddr.isPrefetch e.2.toNat = false ∧ PhysAddr.isCache e.2.toNat = false) :
    FetchesPlain L (.node (.resume handler machineId handlerId env)) := by
  rintro heap des ⟨bytes, m, hfetched, hdes⟩
  exact (deserialize_words (P := fun w => PhysAddr.isPrefetch w = false ∧
    PhysAddr.isCache w = false) hdes fun d hd => hwords bytes m d hfetched hd).2

/-! ## A process with two pages -/

/-- The two pages are the last ones below the kernel. -/
def twoPageParent : ParentDescriptor :=
  ⟨default, [⟨[(0, 0x5000), (0x1000, 0x6000)]⟩],
    [⟨(0x7fffffffd000, 0x7ffffffff000), 0, 0, true⟩], default⟩

def twoPageTable : Heap × RemotePageTable :=
  tableMachine.run (RemotePageTable.new Heap.empty)
    [.map (.ofPageKey 0x7fffffffd) 0x5000, .map (.ofPageKey 0x7fffffffe) 0x6000]

def twoPageBuffer : BytesMut := ⟨0x2000, 320, by decide⟩

def twoPageMemory : Memory :=
  writeBytes (fun _ => 0) twoPageBuffer.ptr (twoPageParent.image Layout.packed)

/-- A resume that finds the descriptor of a process with two pages. -/
def twoPageEnv : ResumeEnv where
  reply := some ⟨0x10000, 320, true, 0, 0, (0, 0), 0, 0⟩
  fetched := .ok (twoPageBuffer, twoPageMemory)
  prefetchInfo := some ⟨0, 0, 0⟩
  accessInfo := some ⟨0, 0, 0⟩
  applyInfo := some ⟨0, 0, 0⟩
  mapped := true

theorem deserialize_twoPageBuffer :
    ParentDescriptor.deserialize Layout.packed twoPageBuffer twoPageMemory = .ok twoPageParent ∧
      ChildDescriptor.deserialize Layout.packed Heap.empty twoPageBuffer twoPageMemory =
        twoPageParent.toDescriptor Heap.empty := by
  have hlen : (twoPageParent.image Layout.packed).length ≤ twoPageBuffer.len := by decide +kernel
  have hholds : Holds twoPageMemory twoPageBuffer.ptr (twoPageParent.image Layout.packed) :=
    holds_writeBytes _ _ _
  exact ⟨ParentDescriptor.deserialize_of_holds rfl hlen hholds,
    child_deserialize_of_holds rfl hlen hholds (by decide) Heap.empty⟩

theorem toDescriptor_twoPageParent :
    twoPageParent.toDescriptor Heap.empty =
      .ok (twoPageTable.1, ⟨default, twoPageTable.2, twoPageParent.vma, default⟩) := rfl

def resumeTwoPages (handler : ℕ) : SharedAction := .node (.resume handler 1 7 twoPageEnv)

theorem fetchesPlain_resumeTwoPages (handler : ℕ) :
    FetchesPlain Layout.packed (resumeTwoPages handler) := by
  refine fetchesPlain_of_parent fun bytes m d hfetched hd => ?_
  cases hfetched
  cases deserialize_twoPageBuffer.1.symm.trans hd
  rw [twoPageParent, List.forall_mem_singleton, List.forall_mem_cons, List.forall_mem_singleton]
  decide

abbrev twoPageMachine : Machine SharedNode SharedAction (Option NodeOutput × List (RefEvent ℕ)) :=
  sharedMachine ⟨true, true, false⟩ Layout.packed sampleAlloc

def twoPageChild (cache : RemotePageTableCache) (qp : ℕ) : Child :=
  startChild (startTable ⟨true, true, false⟩ cache 1 7 twoPageTable)
    ⟨default, twoPageTable.2, twoPageParent.vma, default⟩ ⟨0, 0, 0⟩ (some (qp, ⟨0, 0, 0⟩))

/-- The machine after a resume of the process with two pages. -/
def resumedTwoPages (s : SharedNode) (handler qp : ℕ) : SharedNode :=
  { s with node := { s.node with
      asyncPool := ⟨[]⟩
      handlers := s.node.handlers.insert handler
        (some ⟨7, 1, twoPageChild s.node.ptCache qp, some qp⟩) } }

theorem step_resumeTwoPages {handler qp : ℕ}
    (hfree : s.node.handlers.lookup handler = some none) (hpool : s.node.asyncPool = ⟨[qp]⟩) :
    (twoPageMachine.step s (resumeTwoPages handler)).1 = resumedTwoPages s handler qp := by
  have hdes := deserialize_twoPageBuffer.2.trans toDescriptor_twoPageParent
  have hplain : ∀ heap des, Fetched Layout.packed twoPageEnv heap des →
      PlainTable (heap, des.pageTable) := fun heap des hfetched =>
    plainTable_of_fetched hfetched (fetchesPlain_resumeTwoPages handler heap des hfetched)
  have hdrops : resumeDrops ⟨true, true, false⟩ Layout.packed s 1 7 twoPageEnv = [] :=
    resumeDrops_eq_nil hplain
  have hcall : syscallResumeWRpc ⟨true, true, false⟩ Layout.packed s.node.ptCache ⟨[qp]⟩ none 1 7
      twoPageEnv = (⟨[]⟩, some ⟨7, 1, twoPageChild s.node.ptCache qp, some qp⟩, .ok 0) := by
    simp [syscallResumeWRpc, twoPageEnv, deserialize, hdes, DCPool.popOneQp, twoPageChild]
  simp only [twoPageMachine, resumeTwoPages, sharedMachine, advance, pageEvents, nodeMachine, hfree,
    hpool, hcall, hdrops]
  rfl

/-! ### Two children, one after the other -/

/-- A handler is opened and a child is resumed. -/
def startTwoPages (handler : ℕ) : List SharedAction := [.node .open, resumeTwoPages handler]

def startedTwoPages (s : SharedNode) : SharedNode :=
  resumedTwoPages (twoPageMachine.step s (.node .open)).1 s.node.nextHandler 3

def twoChildren (first second : List SharedAction) : List SharedAction :=
  startTwoPages 0 ++ (first ++ (startTwoPages 1 ++ second))

theorem run_startTwoPages {handler : ℕ} (hnext : s.node.nextHandler = handler)
    (hpool : s.node.asyncPool = ⟨[3]⟩) :
    twoPageMachine.run s (startTwoPages handler) = startedTwoPages s := by
  subst hnext
  exact step_resumeTwoPages (AList.lookup_insert _) hpool

theorem run_firstStart : twoPageMachine.run (.boot ⟨[3]⟩) (startTwoPages 0) =
    startedTwoPages (.boot ⟨[3]⟩) :=
  run_startTwoPages rfl rfl

section TwoChildren

variable {first : List SharedAction}
  (hnext : (twoPageMachine.run (startedTwoPages (.boot ⟨[3]⟩)) first).node.nextHandler = 1)
  (hpool : (twoPageMachine.run (startedTwoPages (.boot ⟨[3]⟩)) first).node.asyncPool = ⟨[3]⟩)

include hnext hpool

theorem run_twoChildren (second : List SharedAction) :
    twoPageMachine.run (.boot ⟨[3]⟩) (twoChildren first second) = twoPageMachine.run
      (startedTwoPages (twoPageMachine.run (startedTwoPages (.boot ⟨[3]⟩)) first)) second := by
  rw [twoChildren, Machine.run_append, run_firstStart, Machine.run_append,
    Machine.run_append, run_startTwoPages hnext hpool]

theorem always_twoChildren {P : SharedNode → SharedAction → Prop} {second : List SharedAction} :
    twoPageMachine.Always P (.boot ⟨[3]⟩) (twoChildren first second) ↔
      twoPageMachine.Always P (.boot ⟨[3]⟩) (startTwoPages 0) ∧
      twoPageMachine.Always P (startedTwoPages (.boot ⟨[3]⟩)) first ∧
      twoPageMachine.Always P (twoPageMachine.run (startedTwoPages (.boot ⟨[3]⟩)) first)
        (startTwoPages 1) ∧
      twoPageMachine.Always P
        (startedTwoPages (twoPageMachine.run (startedTwoPages (.boot ⟨[3]⟩)) first)) second := by
  rw [twoChildren, Machine.always_append, run_firstStart, Machine.always_append,
    Machine.always_append, run_startTwoPages hnext hpool]

end TwoChildren

/-- The fault on the first page, with a READ ahead of the second page. -/
def firstFault (handler : ℕ) : SharedAction :=
  .node (.child handler (sampleFault (.ofPageKey 0x7fffffffd)))

def secondFault (handler : ℕ) : SharedAction :=
  .node (.child handler (sampleFault (.ofPageKey 0x7fffffffe)))

/-- The READ completes, and the prefetcher finds the completion. -/
def secondPageArrives (handler : ℕ) : List SharedAction :=
  [.node (.child handler (.complete .success)), .node (.child handler (.poll ⟨[], none⟩))]

/-- The second page is used before the child exits, and the next child finds its table in
the cache. -/
theorem shared_pages_safe_two_children :
    let first := firstFault 0 :: (secondPageArrives 0 ++ [secondFault 0, .node (.close 0 [])])
    let as := twoChildren first [firstFault 1, .unmap 1 0]
    ((twoPageMachine.run (startedTwoPages (.boot ⟨[3]⟩)) first).node.ptCache.lookup 1 7).isSome =
        true ∧
      (twoPageMachine.run (.boot ⟨[3]⟩) as).pages.freed.Nodup ∧
      twoPageMachine.Always (HandsLive ⟨true, true, false⟩ Layout.packed sampleAlloc)
        (.boot ⟨[3]⟩) as ∧
      NoMarkCached (twoPageMachine.run (.boot ⟨[3]⟩) as) := by
  intro first as
  have hnext : (twoPageMachine.run (startedTwoPages (.boot ⟨[3]⟩)) first).node.nextHandler = 1 := by
    decide +kernel
  have hpool : (twoPageMachine.run (startedTwoPages (.boot ⟨[3]⟩)) first).node.asyncPool = ⟨[3]⟩ := by
    decide +kernel
  have hwords : ∀ a ∈ as, FetchesPlain Layout.packed a := by
    simp only [as, twoChildren, startTwoPages, first, List.forall_mem_cons,
      List.forall_mem_append, fetchesPlain_resumeTwoPages, secondPageArrives]
    simp [FetchesPlain, firstFault, secondFault]
  have hmemory : twoPageMachine.Always (HasMemory sampleAlloc) (.boot ⟨[3]⟩) as :=
    (always_twoChildren hnext hpool).mpr ⟨⟨trivial, trivial, trivial⟩, by decide +kernel,
      ⟨trivial, trivial, trivial⟩, ⟨by decide +kernel, trivial, trivial⟩⟩
  have hempty : twoPageMachine.Always ExitsEmpty (.boot ⟨[3]⟩) as :=
    (always_twoChildren hnext hpool).mpr ⟨⟨trivial, trivial, trivial⟩, by decide +kernel,
      ⟨trivial, trivial, trivial⟩, ⟨trivial, trivial, trivial⟩⟩
  have hsettled := exitsSettled_of_exitsEmpty rfl rfl hwords hmemory hempty
  have hcached : ((twoPageMachine.run (startedTwoPages (.boot ⟨[3]⟩)) first).node.ptCache.lookup
      1 7).isSome = true := by
    decide +kernel
  clear_value as
  exact ⟨hcached, shared_pages_safe rfl rfl Layout.packed sampleAlloc ⟨[3]⟩ hwords hmemory hsettled⟩

/-- What the exit of a child does, and the word of its second page. -/
def exitsWith (s : SharedNode) (handler : ℕ) (polls : List CqEvent) : Option (ℕ × Option PhysAddr × Bool) :=
  match s.node.handlers.lookup handler with
  | some (some r) => some (r.handlerId, r.child.lookupPgTable (.ofPageKey 0x7fffffffe),
      (drop ⟨true, true, false⟩ s.node.ptCache s.node.asyncPool (some r) polls).isOk)
  | _ => none

theorem cached_of_exitsWith {handler : ℕ} {polls : List CqEvent} {w : PhysAddr}
    (inv : Accounts sampleAlloc s) (h : exitsWith s handler polls = some (7, some w, true)) :
    ∃ table, (twoPageMachine.step s (.node (.close handler polls))).1.node.ptCache.lookup 1 7 =
        some table ∧ WellFormed table.1 table.2.l4PageTable ∧
      table.2.translate table.1 (.ofPageKey 0x7fffffffe) = some w := by
  unfold exitsWith at h
  split at h
  · next r hr =>
      obtain ⟨hid, hword, hok⟩ : r.handlerId = 7 ∧ r.child.lookupPgTable _ = some w ∧ _ = true := by
        simpa using h
      cases hdrop : drop ⟨true, true, false⟩ s.node.ptCache s.node.asyncPool (some r) polls with
      | error halt =>
        rw [hdrop] at hok
        cases hok
      | ok res =>
        obtain ⟨cache, pool⟩ := res
        obtain ⟨table, hlookup, hw, hwords⟩ := inv.words_of_close rfl hr hdrop 1
        rw [hid] at hlookup
        exact ⟨table, hlookup, hw, (hwords _).trans hword⟩
  · cases h

theorem lookupPgTable_twoPageChild {cache : RemotePageTableCache}
    (hcached : cache.lookup 1 7 = some table) (hw : WellFormed table.1 table.2.l4PageTable)
    (qp : ℕ) (a : VirtAddr) :
    (twoPageChild cache qp).lookupPgTable a = table.2.translate table.1 a := by
  rw [twoPageChild, lookupPgTable_startChild]
  simp only [startTable, if_true, hcached]
  exact translate_copy hw a

theorem pageEvents_secondFault
    (hnext : s.node.nextHandler = 1) (hcached : s.node.ptCache.lookup 1 7 = some table)
    (hw : WellFormed table.1 table.2.l4PageTable)
    (hword : table.2.translate table.1 (.ofPageKey 0x7fffffffe) = some 17) :
    pageEvents ⟨true, true, false⟩ Layout.packed sampleAlloc (startedTwoPages s) (secondFault 1) =
      [.hand 16, .get 16] := by
  have hr : (startedTwoPages s).node.handlers.lookup s.node.nextHandler =
      some (some ⟨7, 1, twoPageChild s.node.ptCache 3, some 3⟩) :=
    AList.lookup_insert (twoPageMachine.step s (.node .open)).1.node.handlers
  rw [hnext] at hr
  have hslot : (withMemory (startedTwoPages s) (twoPageChild s.node.ptCache 3)).lookupPgTable
      (.ofPageKey 0x7fffffffe) = some 17 :=
    (lookupPgTable_twoPageChild hcached hw 3 _).trans hword
  simp only [pageEvents, secondFault, hr]
  exact faultEvents_of_readAhead (w := 17) rfl rfl hslot rfl (by decide) rfl

/-- The next child is handed a page that was freed, and frees it again. -/
theorem secondFault_hands_freed
    (hnext : s.node.nextHandler = 1) (hcached : s.node.ptCache.lookup 1 7 = some table)
    (hw : WellFormed table.1 table.2.l4PageTable)
    (hword : table.2.translate table.1 (.ofPageKey 0x7fffffffe) = some 17)
    (hfreed : s.pages.freed = [16]) (hcount : s.pages.count 16 = 0)
    (hinstalled : s.installed 1 = []) :
    ¬ twoPageMachine.Always (HandsLive ⟨true, true, false⟩ Layout.packed sampleAlloc)
        (startedTwoPages s) [secondFault 1, .unmap 1 0] ∧
      ¬ (twoPageMachine.run (startedTwoPages s) [secondFault 1, .unmap 1 0]).pages.freed.Nodup := by
  have hevents := pageEvents_secondFault hnext hcached hw hword
  have hpages : (startedTwoPages s).pages = s.pages := rfl
  constructor
  · rintro ⟨hsecond, -⟩
    rw [HandsLive, hevents, hpages] at hsecond
    exact hsecond.1 (hfreed ▸ List.mem_singleton_self 16)
  · have hmapped : (twoPageMachine.step (startedTwoPages s) (secondFault 1)).1.installed 1 = [16] := by
      rw [secondFault, installed_child, ← secondFault, hevents]
      change s.installed 1 ++ _ = _
      rw [hinstalled]
      rfl
    have hafter : (twoPageMachine.step (startedTwoPages s) (secondFault 1)).1.pages =
        RefCounts.machine.run s.pages [.hand 16, .get 16] := by
      rw [← hevents]
      rfl
    change ¬ (RefCounts.machine.run (twoPageMachine.step (startedTwoPages s) (secondFault 1)).1.pages
      (((twoPageMachine.step (startedTwoPages s) (secondFault 1)).1.installed 1)[0]?.toList.map
        .put)).freed.Nodup
    rw [hmapped, hafter]
    simp [RefCounts.machine, hfreed, hcount]

theorem accounts_run_twoPages (inv : Accounts sampleAlloc s)
    (as : List SharedAction) (hwords : ∀ a ∈ as, FetchesPlain Layout.packed a)
    (hmemory : twoPageMachine.Always (HasMemory sampleAlloc) s as)
    (hsettled : twoPageMachine.Always ExitsSettled s as) :
    Accounts sampleAlloc (twoPageMachine.run s as) :=
  (inv.run rfl rfl hwords hmemory hsettled).1

theorem accounts_firstStart : Accounts sampleAlloc (startedTwoPages (.boot ⟨[3]⟩)) := by
  rw [← run_firstStart]
  refine accounts_run_twoPages (accounts_boot _ _) _ ?_ ⟨trivial, trivial, trivial⟩
    ⟨trivial, trivial, trivial⟩
  intro a ha
  rcases List.mem_pair.mp ha with rfl | rfl
  · trivial
  · exact fetchesPlain_resumeTwoPages 0

/-- The first child has exited with the second page in its table. -/
abbrev firstExited : SharedNode :=
  twoPageMachine.run (startedTwoPages (.boot ⟨[3]⟩))
    (firstFault 0 :: secondPageArrives 0 ++ [.node (.close 0 [])])

/-- A child that exits while the second page is read ahead leaves the mark in the cache.
If the page has arrived, the exit frees it, and the next child is handed the freed page
and frees it again. -/
theorem exit_shares_read_ahead_page :
    let marked := startTwoPages 0 ++ [firstFault 0, .node (.close 0 [⟨[.success], none⟩])]
    let arrived := twoChildren (firstFault 0 :: secondPageArrives 0 ++ [.node (.close 0 [])])
      [secondFault 1, .unmap 1 0]
    ¬ NoMarkCached (twoPageMachine.run (.boot ⟨[3]⟩) marked) ∧
      ¬ twoPageMachine.Always (HandsLive ⟨true, true, false⟩ Layout.packed sampleAlloc)
        (.boot ⟨[3]⟩) arrived ∧
      ¬ (twoPageMachine.run (.boot ⟨[3]⟩) arrived).pages.freed.Nodup := by
  intro marked arrived
  constructor
  · intro hnone
    have inv := accounts_run_twoPages accounts_firstStart [firstFault 0]
      (by simp [FetchesPlain, firstFault]) ⟨by decide +kernel, trivial⟩ ⟨trivial, trivial⟩
    obtain ⟨table, hcached, -, hword⟩ := cached_of_exitsWith (w := kMagicInPrefetch) inv
      (show exitsWith _ 0 [⟨[.success], none⟩] = _ by decide +kernel)
    rw [Machine.run_append, run_firstStart] at hnone
    exact hnone 7 table hcached _ hword
  · have inv := accounts_run_twoPages accounts_firstStart (firstFault 0 :: secondPageArrives 0)
      (by simp [FetchesPlain, firstFault, secondPageArrives]) (by decide +kernel)
      ⟨trivial, trivial, trivial, trivial⟩
    obtain ⟨table, hcached, hw, hword⟩ := cached_of_exitsWith (w := 17) inv
      (show exitsWith _ 0 [] = _ by decide +kernel)
    rw [← Machine.run_concat] at hcached
    have hnext : firstExited.node.nextHandler = 1 := by decide +kernel
    have hpool : firstExited.node.asyncPool = ⟨[3]⟩ := by decide +kernel
    have hfreed : firstExited.pages.freed = [16] := by decide +kernel
    have hcount : firstExited.pages.count 16 = 0 := by decide +kernel
    have hinstalled : firstExited.installed 1 = [] := by decide +kernel
    obtain ⟨hnotLive, htwice⟩ :=
      secondFault_hands_freed hnext hcached hw hword hfreed hcount hinstalled
    refine ⟨fun hlive => hnotLive ((always_twoChildren hnext hpool).mp hlive).2.2.2, ?_⟩
    rw [run_twoChildren hnext hpool]
    exact htwice

end Mitosis.Resume
