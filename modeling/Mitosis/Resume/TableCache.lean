import Mitosis.Descriptors.Decoders
import Mitosis.PageFault.Marks
import Mitosis.PageFault.PrefetchRun
import Mitosis.Resume.Syscall

/-!
# Page tables from the cache

The cache of page tables is keyed by the handler id alone: the machine is not part
of the key, and a later exit overwrites an earlier one.  A child that finds a table
there starts from a copy of it, whatever it has just fetched.  That is sound when a
handler id stands for one page table throughout and no child exits with a page that
was read ahead in its table.  Then a table in the cache differs from the fetched one
only in slots that a fault has filled with a cached page.
-/

namespace Mitosis.Resume

open Support Descriptors OsNetwork Prefetcher RemoteMapping PageFault
open RemotePaging (AccessInfo)

/-! ## The fetched table -/

section Decoded

variable {L : Layout} {start : UInt64} {m : Memory} {s s' : Heap × RemotePageTable}

theorem exists_calls_of_mapTable {es : List (UInt32 × UInt64)}
    (h : ParentDescriptor.mapTable start es s = .ok s') :
    ∃ calls : List MapCall, s' = tableMachine.run s calls ∧
      ∀ call ∈ calls, ∃ e ∈ es, call.word = e.2.toNat := by
  induction es generalizing s with
  | nil =>
    cases h
    exact ⟨[], rfl, by simp⟩
  | cons e es ih =>
    obtain ⟨s₁, hentry, htable⟩ := Outcome.bind_eq_ok.mp h
    obtain ⟨sum, -, hsum⟩ := Outcome.bind_eq_ok.mp hentry
    obtain ⟨addr, -, heq⟩ := Outcome.bind_eq_ok.mp hsum
    cases heq
    obtain ⟨calls, hrun, hwords⟩ := ih htable
    refine ⟨.map addr e.2.toNat :: calls, hrun, List.forall_mem_cons.mpr ⟨?_, fun call hcall => ?_⟩⟩
    · exact ⟨e, List.mem_cons_self, rfl⟩
    · obtain ⟨e', he', hword⟩ := hwords call hcall
      exact ⟨e', List.mem_cons_of_mem e he', hword⟩

theorem exists_calls_of_mapTables {vmas : List VMADescriptor} {i : ℕ}
    {tables : List CompactPageTable} (h : ParentDescriptor.mapTables vmas i tables s = .ok s') :
    ∃ calls : List MapCall, s' = tableMachine.run s calls ∧
      ∀ call ∈ calls, ∃ t ∈ tables, ∃ e ∈ t.innerPgTable, call.word = e.2.toNat := by
  induction tables generalizing i s with
  | nil =>
    cases h
    exact ⟨[], rfl, by simp⟩
  | cons t tables ih =>
    obtain ⟨vma, -, h⟩ := Outcome.bind_eq_ok.mp h
    obtain ⟨s₁, htable, htables⟩ := Outcome.bind_eq_ok.mp h
    obtain ⟨calls, rfl, hwords⟩ := exists_calls_of_mapTable htable
    obtain ⟨calls', rfl, hwords'⟩ := ih htables
    refine ⟨calls ++ calls', (Machine.run_append ..).symm, List.forall_mem_append.mpr
      ⟨fun call hcall => ⟨t, List.mem_cons_self, hwords call hcall⟩, fun call hcall => ?_⟩⟩
    obtain ⟨t', ht', hword⟩ := hwords' call hcall
    exact ⟨t', List.mem_cons_of_mem t ht', hword⟩

/-- The table of a decoded descriptor is built by calls with the words that the parent
wrote. -/
theorem exists_calls_of_deserialize {h heap : Heap} {bytes : BytesMut} {des : ChildDescriptor}
    (hdes : ChildDescriptor.deserialize L h bytes m = .ok (heap, des)) :
    ∃ d calls, ParentDescriptor.deserialize L bytes m = .ok d ∧
      (heap, des.pageTable) = tableMachine.run (RemotePageTable.new h) calls ∧
      ∀ call ∈ calls, ∃ t ∈ d.pageTable, ∃ e ∈ t.innerPgTable, call.word = e.2.toNat := by
  -- a decoder that panics gives no table, so every address it has added up is canonical
  have hsums : ∀ p ∈ scannedSums L bytes m, SumAccepted p.1 p.2 := by
    by_contra hbad
    push Not at hbad
    rw [(child_deserialize_panicked_iff L h bytes).mpr hbad] at hdes
    cases hdes
  rcases deserialize_agree L h bytes m hsums with ⟨-, habsent⟩ | ⟨d, r, hparent, hchild, hto⟩
  · rw [habsent] at hdes
    cases hdes
  · cases hchild.symm.trans hdes
    obtain ⟨s, htables, heq⟩ := Outcome.bind_eq_ok.mp hto
    cases heq
    obtain ⟨calls, hrun, hwords⟩ := exists_calls_of_mapTables htables
    exact ⟨d, calls, hparent, hrun, hwords⟩

theorem deserialize_words {P : PhysAddr → Prop} {h heap : Heap} {bytes : BytesMut}
    {des : ChildDescriptor} (hdes : ChildDescriptor.deserialize L h bytes m = .ok (heap, des))
    (hP : ∀ d, ParentDescriptor.deserialize L bytes m = .ok d →
      ∀ t ∈ d.pageTable, ∀ e ∈ t.innerPgTable, P e.2.toNat) :
    WellFormed heap des.pageTable.l4PageTable ∧
      ∀ a w, des.pageTable.translate heap a = some w → P w := by
  obtain ⟨d, calls, hparent, hrun, hwords⟩ := exists_calls_of_deserialize hdes
  have hcalls : ∀ call ∈ calls, P call.word := by
    intro call hcall
    obtain ⟨t, ht, e, he, hword⟩ := hwords call hcall
    exact hword ▸ hP d hparent t ht e he
  have hbuilt := words_of_calls hcalls h
  rw [← hrun] at hbuilt
  exact hbuilt

end Decoded

variable {des : ChildDescriptor} {env : ResumeEnv} {heap : Heap}

theorem Fetched.wellFormed {L : Layout}
    (h : Fetched L env heap des) : WellFormed heap des.pageTable.l4PageTable := by
  obtain ⟨bytes, m, -, hdes⟩ := h
  exact (deserialize_words (P := fun _ => True) hdes fun _ _ _ _ _ _ => trivial).1

/-! ## Tables that differ in cached pages only -/

/-- The table has the words `T`, except that some pages that `T` maps are cached. -/
structure CachedFrom (T : ℕ → Option PhysAddr) (table : Heap × RemotePageTable) : Prop where
  wellFormed : WellFormed table.1 table.2.l4PageTable
  slots : ∀ k < 2 ^ 36, Derived (fun w => PhysAddr.isCache w = true) (T k)
    (nodeAt table.1 table.2.l4PageTable 4 k)

namespace CachedFrom

variable {f : Features} {T : ℕ → Option PhysAddr} {table : Heap × RemotePageTable}
  {cache : RemotePageTableCache} {machineId handlerId : ℕ} {c : Child} {σ : Setup}

theorem of_translate (hw : WellFormed table.1 table.2.l4PageTable)
    (h : ∀ a : VirtAddr, table.2.translate table.1 a = T a.pageKey) : CachedFrom T table where
  wellFormed := hw
  slots k hk := by
    have hword := h (VirtAddr.ofPageKey k)
    rw [translate_eq, VirtAddr.pageKey_ofPageKey hk] at hword
    exact Or.inl hword

theorem copy (h : CachedFrom T table) : CachedFrom T (table.2.copy table.1) where
  wellFormed := (copy_spec h.wellFormed).1
  slots k hk := by
    rw [(copy_spec h.wellFormed).2]
    exact h.slots k hk

theorem startTable (h : CachedFrom T table)
    (hcache : ∀ cached, cache.lookup machineId handlerId = some cached → CachedFrom T cached) :
    CachedFrom T (startTable f cache machineId handlerId table) := by
  unfold Resume.startTable
  split
  · split
    · next cached hcached => exact (hcache _ hcached).copy
    · exact h
  · exact h

theorem startChild (h : CachedFrom T table) (alloc : PageAllocator) (des : ChildDescriptor)
    (info : AccessInfo) (prefetcher : Option (ℕ × AccessInfo)) :
    ∃ σ, (startChild table des info prefetcher).From f σ T ∅ := by
  have hwords : ∀ k < 2 ^ 36, Derived (Marked f) (T k) (nodeAt table.1 table.2.l4PageTable 4 k) :=
    fun k hk => (h.slots k hk).mono fun w _ hw => Or.inl hw
  cases prefetcher with
  | none => exact ⟨_, .of_words alloc h.wellFormed hwords rfl⟩
  | some p => exact ⟨_, .of_words alloc h.wellFormed hwords rfl⟩

theorem of_child (h : c.From f σ T ∅)
    (hplain : f.prefetch = true → ∀ a w, c.lookupPgTable a = some w →
      PhysAddr.isPrefetch w = false) :
    CachedFrom T (c.exec.heap, c.descriptor.pageTable) := by
  obtain ⟨hσ, word, hx⟩ := h
  change c.descriptor.pageTable.l4PageTable = σ.root at hσ
  constructor
  case wellFormed => exact hσ ▸ hx.table.wellFormed
  case slots =>
    intro k hk
    dsimp only
    rw [hσ, hx.table.words]
    refine (hx.slots k hk (Set.notMem_empty k)).mono fun w hw hmark => ?_
    rcases hmark with hcache | ⟨hf, hprefetch⟩
    · exact hcache
    · have hlookup : c.lookupPgTable (VirtAddr.ofPageKey k) = some w := by
        rw [Child.lookupPgTable, translate_eq, VirtAddr.pageKey_ofPageKey hk, hσ,
          hx.table.words, hw]
      rw [hplain hf _ w hlookup] at hprefetch
      cases hprefetch

end CachedFrom

/-! ## Every run -/

/-- A slot of the copied table against the slot of the fetched one: equal unless it is
marked as cached, and then the fetched table maps the page. -/
structure SlotSound (copied fetched : Option PhysAddr) : Prop where
  unmarked : copied.any PhysAddr.isCache = false → copied = fetched
  marked : copied.any PhysAddr.isCache = true → fetched.isSome = true

theorem Derived.slotSound {copied fetched : Option PhysAddr}
    (h : Derived (fun w => PhysAddr.isCache w = true) fetched copied) :
    SlotSound copied fetched := by
  constructor
  · intro hmark
    rcases h with heq | ⟨w, rfl, hw, -⟩
    · exact heq
    · rw [Option.any_some, hw] at hmark
      cases hmark
  · intro hmark
    apply h.isSome
    cases copied with
    | none => cases hmark
    | some w => rfl

/-- The call resumes a child in a free handler. -/
def Resumes (f : Features) (L : Layout) (s : ResumeNode) (handler machineId handlerId : ℕ)
    (env : ResumeEnv) (r : ResumeData) : Prop :=
  s.handlers.lookup handler = some none ∧
    (syscallResumeWRpc f L s.ptCache s.asyncPool none machineId handlerId env).2.1 = some r

/-- If the call replaces the table of the fetched descriptor by a cached one, then every
slot is sound. -/
def SoundReplacement (f : Features) (L : Layout) (s : ResumeNode) : NodeAction → Prop
  | .resume handler machineId handlerId env =>
    ∀ r heap des, Resumes f L s handler machineId handlerId env r →
      (s.ptCache.lookup machineId handlerId).isSome = true → Fetched L env heap des →
      ∀ a, SlotSound (r.child.lookupPgTable a) (des.pageTable.translate heap a)
  | _ => True

/-- A child that is resumed under a handler id fetches the table with the words of that
id, and a child that exits has no page in its table that was read ahead. -/
def OneTable (f : Features) (L : Layout) (T : ℕ → ℕ → Option PhysAddr) (s : ResumeNode) :
    NodeAction → Prop
  | .resume handler machineId handlerId env =>
    ∀ r heap des, Resumes f L s handler machineId handlerId env r → Fetched L env heap des →
      ∀ a, des.pageTable.translate heap a = T handlerId a.pageKey
  | .close handler _ => f.prefetch = true → ∀ r, s.handlers.lookup handler = some (some r) →
      ∀ a w, r.child.lookupPgTable a = some w → PhysAddr.isPrefetch w = false
  | _ => True

/-- What a run keeps: the tables of the children and of the cache derive from the words
of their handler ids. -/
structure Caches (f : Features) (T : ℕ → ℕ → Option PhysAddr) (s : ResumeNode) : Prop where
  children : ∀ h r, s.handlers.lookup h = some (some r) →
    ∃ σ, r.child.From f σ (T r.handlerId) ∅
  cached : ∀ id table, s.ptCache.store.lookup id = some table → CachedFrom (T id) table

section Steps

variable {f : Features} {L : Layout} {alloc : PageAllocator} {T : ℕ → ℕ → Option PhysAddr}
  {s : ResumeNode}

theorem Caches.insert (inv : Caches f T s) (pool : DCPool) (next handler : ℕ)
    {data : Option ResumeData}
    (hdata : ∀ r, data = some r → ∃ σ, r.child.From f σ (T r.handlerId) ∅) :
    Caches f T { s with
      asyncPool := pool, handlers := s.handlers.insert handler data, nextHandler := next } where
  children h r hr := by
    rcases lookup_insert_cases hr with ⟨-, heq⟩ | hold
    · exact hdata r heq
    · exact inv.children h r hold
  cached := inv.cached

theorem Caches.startTable (inv : Caches f T s) (machineId : ℕ) {handlerId : ℕ}
    (hfetched : Fetched L env heap des)
    (htable : ∀ a, des.pageTable.translate heap a = T handlerId a.pageKey) :
    CachedFrom (T handlerId)
      (startTable f s.ptCache machineId handlerId (heap, des.pageTable)) :=
  (CachedFrom.of_translate hfetched.wellFormed htable).startTable
    fun cached hcached => inv.cached handlerId cached hcached

theorem Caches.resume (inv : Caches f T s) {handler machineId handlerId : ℕ}
    (hone : OneTable f L T s (.resume handler machineId handlerId env)) :
    Caches f T ((nodeMachine f L alloc).step s (.resume handler machineId handlerId env)).1 := by
  cases hdata : s.handlers.lookup handler with
  | none =>
    simp only [nodeMachine, hdata]
    exact inv
  | some data =>
    rw [step_resume hdata]
    apply inv.insert
    intro r hr
    cases data with
    | some r' =>
      obtain rfl : r' = r := Option.some.inj hr
      exact inv.children handler r' hdata
    | none =>
      obtain ⟨heap, des, info, prefetcher, hfetched, rfl⟩ := eq_of_syscallResumeWRpc hr
      have htable := hone _ heap des ⟨hdata, hr⟩ hfetched
      exact (inv.startTable machineId hfetched htable).startChild alloc des info prefetcher

theorem Caches.soundReplacement (inv : Caches f T s) {handler machineId handlerId : ℕ}
    (hone : OneTable f L T s (.resume handler machineId handlerId env)) :
    SoundReplacement f L s (.resume handler machineId handlerId env) := by
  intro r heap des hresumes _ hfetched a
  obtain ⟨heap', des', info, prefetcher, hfetched', rfl⟩ := eq_of_syscallResumeWRpc hresumes.2
  have htable := hone _ heap des hresumes hfetched
  have hstart := inv.startTable machineId hfetched'
    (hone _ heap' des' hresumes hfetched')
  have hslot := hstart.slots a.pageKey a.pageKey_lt
  rw [← translate_eq, ← htable a] at hslot
  rw [lookupPgTable_startChild]
  exact Derived.slotSound hslot

theorem Caches.child (hf : f.pageCache = true) (inv : Caches f T s) (handler : ℕ)
    (action : ChildAction) :
    Caches f T ((nodeMachine f L alloc).step s (.child handler action)).1 := by
  dsimp only [nodeMachine]
  split
  · next r hr =>
      obtain ⟨σ, hfrom⟩ := inv.children handler r hr
      apply inv.insert
      intro r' hr'
      rw [← Option.some.inj hr']
      exact ⟨σ, hfrom.step hf action⟩
  · exact inv

theorem Caches.cacheMyPt (inv : Caches f T s) {data : Option ResumeData}
    (hdata : ∀ r, data = some r →
      CachedFrom (T r.handlerId) (r.child.exec.heap, r.child.descriptor.pageTable)) :
    ∀ id table, (cacheMyPt f s.ptCache data).store.lookup id = some table →
      CachedFrom (T id) table := by
  intro id table hlookup
  unfold Resume.cacheMyPt at hlookup
  split at hlookup
  · exact inv.cached id table hlookup
  · next r =>
      split at hlookup
      · rcases lookup_insert_cases hlookup with ⟨rfl, htable⟩ | hold
        · rw [← htable]
          exact (hdata r rfl).copy
        · exact inv.cached id table hold
      · exact inv.cached id table hlookup

theorem Caches.close (inv : Caches f T s) {handler : ℕ} {polls : List CqEvent}
    (hone : OneTable f L T s (.close handler polls)) :
    Caches f T ((nodeMachine f L alloc).step s (.close handler polls)).1 := by
  cases hdata : s.handlers.lookup handler with
  | none =>
    simp only [nodeMachine, hdata]
    exact inv
  | some data =>
    cases hdrop : drop f s.ptCache s.asyncPool data polls with
    | error halt =>
      simp only [nodeMachine, hdata, hdrop]
      exact inv
    | ok res =>
      obtain ⟨cache, pool⟩ := res
      rw [step_close hdata hdrop, drop_cache hdrop]
      refine ⟨fun h r hr => inv.children h r (lookup_of_erase hr), inv.cacheMyPt ?_⟩
      rintro r rfl
      obtain ⟨σ, hfrom⟩ := inv.children handler r hdata
      exact .of_child hfrom fun hprefetch => hone hprefetch r hdata

end Steps

/-- In every run of a machine with the `page-cache` feature in which a handler id
stands for one page table, whatever machine and process it comes from, and in which no
child exits with a page that was read ahead, a cached table is only used where it is
sound. -/
theorem cached_tables_sound {f : Features} (hf : f.pageCache = true) (L : Layout)
    (alloc : PageAllocator) (pool : DCPool) (T : ℕ → ℕ → Option PhysAddr) {as : List NodeAction}
    (has : (nodeMachine f L alloc).Always (OneTable f L T) (ResumeNode.boot pool) as) :
    (nodeMachine f L alloc).Always (SoundReplacement f L) (ResumeNode.boot pool) as := by
  have hboot : Caches f T (ResumeNode.boot pool) := by
    constructor
    · simp [ResumeNode.boot]
    · simp [ResumeNode.boot]
  refine Machine.always_of_invariant (Caches f T) (fun s a inv hone => ?_) hboot has
  cases a with
  | «open» => exact ⟨inv.insert _ _ _ fun r hr => (nomatch hr), trivial⟩
  | child handler action => exact ⟨inv.child hf handler action, trivial⟩
  | resume handler machineId handlerId env => exact ⟨inv.resume hone, inv.soundReplacement hone⟩
  | close handler polls => exact ⟨inv.close hone, trivial⟩

/-! ## Two resumes of one handler id -/

/-- Nothing fails in a resume. -/
structure Found (L : Layout) (env : ResumeEnv) (heap : Heap) (des : ChildDescriptor) : Prop where
  ready : ∃ d, env.reply = some d ∧ d.ready = true
  fetched : Fetched L env heap des
  accessInfo : env.accessInfo.isSome = true
  applied : (env.applyInfo.isSome && env.mapped) = true

section Reuse

variable {f : Features} {L : Layout} {alloc : PageAllocator} {s : ResumeNode}
  {handler machineId handlerId : ℕ} {env : ResumeEnv} {heap : Heap} {des : ChildDescriptor}
  {r : ResumeData}

theorem syscallResumeWRpc_of_found (hf : f.prefetch = false) (h : Found L env heap des)
    (cache : RemotePageTableCache) (pool : DCPool) (machineId handlerId : ℕ) :
    ∃ info, syscallResumeWRpc f L cache pool none machineId handlerId env =
      (pool, some ⟨handlerId, machineId, startChild (startTable f cache machineId handlerId
        (heap, des.pageTable)) des info none, none⟩, .ok 0) := by
  obtain ⟨d, hreply, hready⟩ := h.ready
  obtain ⟨bytes, m, hfetched, hdes⟩ := h.fetched
  obtain ⟨info, hinfo⟩ := Option.isSome_iff_exists.mp h.accessInfo
  refine ⟨info, ?_⟩
  simp [syscallResumeWRpc, hreply, hready, hfetched, deserialize, hdes, hf, hinfo, h.applied]

theorem ptCache_close {cache : RemotePageTableCache} {pool : DCPool} {polls : List CqEvent}
    (hcache : f.pageCache = true) (h : s.handlers.lookup handler = some (some r))
    (hdrop : drop f s.ptCache s.asyncPool (some r) polls = .ok (cache, pool)) (machineId : ℕ) :
    ((nodeMachine f L alloc).step s (.close handler polls)).1.ptCache.lookup machineId
        r.handlerId = some (r.child.descriptor.pageTable.copy r.child.exec.heap) := by
  rw [step_close h hdrop, drop_cache hdrop]
  simp only [cacheMyPt, hcache, if_true]
  exact AList.lookup_insert _

theorem ptCache_resume_close (hf : f.prefetch = false) (hcache : f.pageCache = true)
    (hfree : s.handlers.lookup handler = some none)
    (hempty : s.ptCache.lookup machineId handlerId = none) (h : Found L env heap des)
    (polls : List CqEvent) (machineId' : ℕ) :
    ((nodeMachine f L alloc).run s [.resume handler machineId handlerId env,
        .close handler polls]).ptCache.lookup machineId' handlerId =
      some (des.pageTable.copy heap) := by
  obtain ⟨info, hcall⟩ := syscallResumeWRpc_of_found hf h s.ptCache s.asyncPool machineId handlerId
  have hstart : startTable f s.ptCache machineId handlerId (heap, des.pageTable) =
      (heap, des.pageTable) := by
    simp only [startTable, hcache, if_true, hempty]
  rw [hstart] at hcall
  rw [Machine.run_cons, step_resume hfree, hcall]
  let r : ResumeData :=
    ⟨handlerId, machineId, startChild (heap, des.pageTable) des info none, none⟩
  let s' : ResumeNode := { s with handlers := s.handlers.insert handler (some r) }
  have hkept : s'.handlers.lookup handler = _ := AList.lookup_insert s.handlers
  have hdrop : drop f s'.ptCache s'.asyncPool (some r) polls =
      .ok (cacheMyPt f s'.ptCache (some r), s'.asyncPool) := by
    simp [drop, hf]
  exact ptCache_close hcache hkept hdrop machineId'

/-- A child that finds a cached table has the words of that table, whatever it has
fetched. -/
theorem exists_resumes_of_cached {table : Heap × RemotePageTable} (hf : f.prefetch = false)
    (hcache : f.pageCache = true) (hfree : s.handlers.lookup handler = some none)
    (hcached : s.ptCache.lookup machineId handlerId = some table)
    (hw : WellFormed table.1 table.2.l4PageTable) (h : Found L env heap des) :
    ∃ r, Resumes f L s handler machineId handlerId env r ∧
      ∀ a, r.child.lookupPgTable a = table.2.translate table.1 a := by
  obtain ⟨info, hcall⟩ := syscallResumeWRpc_of_found hf h s.ptCache s.asyncPool machineId handlerId
  have hstart : startTable f s.ptCache machineId handlerId (heap, des.pageTable) =
      table.2.copy table.1 := by
    simp only [startTable, hcache, if_true, hcached]
  rw [hstart] at hcall
  refine ⟨_, ⟨hfree, congrArg (fun res => res.2.1) hcall⟩, fun a => ?_⟩
  rw [lookupPgTable_startChild, translate_copy hw]

end Reuse

/-- The descriptor of a process with one page, in a buffer. -/
def onePageDescriptor (word : UInt64) : BytesMut × Memory :=
  (⟨0x1000, 312, by decide⟩, writeBytes (fun _ => 0) 0x1000
    (ParentDescriptor.image Layout.packed
      ⟨default, [⟨[(0, word)]⟩], [⟨(0x1000, 0x2000), 0, 0, true⟩], default⟩))

def onePage : VirtAddr := .ofPageKey 1

/-- A resume that finds the descriptor of a process with one page. -/
def onePageEnv (word : UInt64) : ResumeEnv where
  reply := some ⟨0x10000, 312, true, 0, 0, (0, 0), 0, 0⟩
  fetched := .ok (onePageDescriptor word)
  prefetchInfo := none
  accessInfo := some ⟨0, 0, 0⟩
  applyInfo := some ⟨0, 0, 0⟩
  mapped := true

theorem found_onePageEnv {word : UInt64}
    (h : ChildDescriptor.deserialize Layout.packed Heap.empty (onePageDescriptor word).1
      (onePageDescriptor word).2 = .ok (heap, des)) :
    Found Layout.packed (onePageEnv word) heap des :=
  ⟨⟨_, rfl, rfl⟩, ⟨_, _, rfl, h⟩, rfl, rfl⟩

def onePageWord (word : UInt64) : Outcome (Option PhysAddr) := do
  let (heap, des) ← ChildDescriptor.deserialize Layout.packed Heap.empty
    (onePageDescriptor word).1 (onePageDescriptor word).2
  .ok (des.pageTable.translate heap onePage)

theorem exists_found (word : UInt64) {o : Option PhysAddr} (h : onePageWord word = .ok o) :
    ∃ heap des, Found Layout.packed (onePageEnv word) heap des ∧
      des.pageTable.translate heap onePage = o := by
  obtain ⟨⟨heap, des⟩, hdes, hword⟩ := Outcome.bind_eq_ok.mp h
  exact ⟨heap, des, found_onePageEnv hdes, Except.ok.inj hword⟩

/-- A child finds the table of another one that was resumed from the same process. -/
theorem cached_tables_sound_reused :
    let M := nodeMachine ⟨false, true, false⟩ Layout.packed sampleAlloc
    let as : List NodeAction := [.open, .resume 0 1 7 (onePageEnv 0x5000), .close 0 [], .open,
      .resume 1 1 7 (onePageEnv 0x5000)]
    M.outputs (ResumeNode.boot ⟨[]⟩) as =
        [.opened 0, .resumed (.ok 0), .closed (.ok ()), .opened 1, .resumed (.ok 0)] ∧
      ((M.run (ResumeNode.boot ⟨[]⟩) (as.take 4)).ptCache.lookup 1 7).isSome = true ∧
      M.Always (SoundReplacement ⟨false, true, false⟩ Layout.packed)
        (ResumeNode.boot ⟨[]⟩) as := by
  intro M as
  refine ⟨by decide +kernel, by decide +kernel, ?_⟩
  obtain ⟨heap, des, hfound, -⟩ := exists_found 0x5000 (o := some 0x5000) (by decide +kernel)
  obtain ⟨bytes, m, hfetched, hdes⟩ := hfound.fetched
  have hone : ∀ heap' des', Fetched Layout.packed (onePageEnv 0x5000) heap' des' → ∀ a,
      des'.pageTable.translate heap' a = nodeAt heap des.pageTable.l4PageTable 4 a.pageKey := by
    rintro heap' des' ⟨bytes', m', hfetched', hdes'⟩ a
    cases hfetched.symm.trans hfetched'
    cases hdes.symm.trans hdes'
    exact translate_eq ..
  exact cached_tables_sound rfl Layout.packed sampleAlloc ⟨[]⟩
    (fun _ => nodeAt heap des.pageTable.l4PageTable 4)
    ⟨trivial, fun _ heap' des' _ => hone heap' des', fun hf => (nomatch hf), trivial,
      fun _ heap' des' _ => hone heap' des', trivial⟩

/-- A child of machine 1 exits, and a process of machine 2 is resumed under the same
handler id: the child of machine 2 has the page of machine 1. -/
theorem cached_table_of_another_machine :
    let M := nodeMachine ⟨false, true, false⟩ Layout.packed sampleAlloc
    let as : List NodeAction := [.open, .resume 0 1 7 (onePageEnv 0x5000), .close 0 [], .open,
      .resume 1 2 7 (onePageEnv 0x9000)]
    ¬ M.Always (SoundReplacement ⟨false, true, false⟩ Layout.packed)
      (ResumeNode.boot ⟨[]⟩) as := by
  intro M as hsound
  obtain ⟨heap, des, hfound, hword⟩ := exists_found 0x5000 (o := some 0x5000) (by decide +kernel)
  obtain ⟨heap', des', hfound', hword'⟩ := exists_found 0x9000 (o := some 0x9000) (by decide +kernel)
  let s₁ := (M.step (ResumeNode.boot ⟨[]⟩) .open).1
  let s₃ := M.run s₁ [.resume 0 1 7 (onePageEnv 0x5000), .close 0 []]
  let s₄ := (M.step s₃ .open).1
  have hcached : s₄.ptCache.lookup 2 7 = some (des.pageTable.copy heap) :=
    ptCache_resume_close rfl rfl rfl rfl hfound [] 2
  have hnext : s₃.nextHandler = 1 := by decide +kernel
  have hfree : s₄.handlers.lookup 1 = some none := by
    change (s₃.handlers.insert s₃.nextHandler none).lookup 1 = some none
    rw [hnext]
    exact AList.lookup_insert _
  have hw := hfound.fetched.wellFormed
  have hf : Features.prefetch ⟨false, true, false⟩ = false := rfl
  obtain ⟨r, hresumes, hlookup⟩ :=
    exists_resumes_of_cached hf rfl hfree hcached (copy_spec hw).1 hfound'
  have hslot := hsound.2.2.2.2.1 r heap' des' hresumes (Option.isSome_of_eq_some hcached)
    hfound'.fetched onePage
  rw [hlookup, translate_copy hw, hword, hword'] at hslot
  exact absurd (hslot.unmarked (by decide)) (by decide)

end Mitosis.Resume
