import Mitosis.PageFault.Equivalence
import Mitosis.Resume.Syscall
import Mitosis.ShadowProcess.Snapshot

/-!
# The memory of a forked child

The pieces put together: a process is prepared, its descriptor is serialised, a child
fetches the bytes, decodes them in `syscall_resume_w_rpc` and runs.  Whenever it faults on
a page that the process had, it should see what the process saw in it when it was
prepared, whatever the processes of the other machine have done since.

A page that a fault installs was filled by a READ of some frame through the target of the
prepared process, at some time before.  So the report of a fault names the frame, and what
the child sees is what such a READ finds, at any time after the prepare.
-/

namespace Mitosis.Resume

open Support Descriptors OsNetwork Prefetcher RemoteMapping PageFault Shadow
open RemotePaging (AccessInfo)

/-! ## What the child decodes -/

section Decoded

variable {space : AddressSpace} {word : Area → PteEntry → ℕ} {L : Layout}
  {regs : RegDescriptor} {rdma : RDMADescriptor} {d : ParentDescriptor}

/-- The descriptor of a process with these areas, and these words for its pages. -/
def Describes (space : AddressSpace) (word : Area → PteEntry → ℕ) (regs : RegDescriptor)
    (rdma : RDMADescriptor) (d : ParentDescriptor) : Prop :=
  d = ⟨regs, space.areas.map (tableOf word), space.areas.map Area.vma, rdma⟩

/-- What a child has decoded of such a descriptor. -/
structure Decodes (space : AddressSpace) (word : Area → PteEntry → ℕ) (regs : RegDescriptor)
    (heap : Heap) (des : ChildDescriptor) : Prop where
  regs : des.regs = regs
  vma : des.vma = space.areas.map Area.vma
  table : ∃ pages, Represents heap des.pageTable pages ∧ Mapped ∅ pages (pagePairs space word)

variable {b : BytesMut} {m : Memory}

theorem scannedSums_canonical (hd : Describes space word regs rdma d)
    (hread : ParentDescriptor.deserialize L b m = .ok d) :
    ∀ q ∈ scannedSums L b m, SumCanonical q.1 q.2 := by
  intro q hq
  obtain ⟨f, hf, e, he, rfl⟩ := mem_scannedSums_of_ok L hread hq
  rw [hd] at hf
  obtain ⟨a, ha, p, hp, hpres, hvma, rfl⟩ := mem_frames hf he
  exact hvma ▸ sumCanonical_offset hp

theorem decodes_of_holds (hd : Describes space word regs rdma d) (hword : WordsFit space word)
    {h heap : Heap} {des : ChildDescriptor}
    (hlen : d.serializationBufLen L ≤ b.len) (hholds : Holds m b.ptr (d.image L))
    (hdes : ChildDescriptor.deserialize L h b m = .ok (heap, des)) :
    Decodes space word regs heap des := by
  have hlength : d.vma.length = d.pageTable.length := by simp [show d = _ from hd]
  have hbytes : m = writeBytes m b.ptr (d.image L) :=
    eq_writeBytes_of_holds hholds fun _ _ => rfl
  obtain ⟨r, heap', des', pages, hser, -, hdes', hrep, hmapped⟩ :=
    child_mapped L hword regs rdma h m hd hlen
  rw [ParentDescriptor.serialize_eq hlength hlen m] at hser
  cases hser
  rw [← hbytes, hdes] at hdes'
  cases hdes'
  have hlen' := ParentDescriptor.length_image (L := L) hlength
  have hread : ParentDescriptor.deserialize L b m = .ok d :=
    ParentDescriptor.deserialize_of_holds hlength
      (by rw [← hlen'] at hlen; omega) hholds
  -- the registers and the areas are those that the parent's decoder reads
  rcases deserialize_agree L h b m fun q hq => (scannedSums_canonical hd hread q hq).accepted with
    ⟨habsent, -⟩ | ⟨d', r, hparent, hchild, hto⟩
  · rw [hread] at habsent
    cases habsent
  · rw [hread] at hparent
    rw [hdes] at hchild
    cases hparent
    cases hchild
    obtain ⟨s, -, heq⟩ := Outcome.bind_eq_ok.mp hto
    cases heq
    refine ⟨?_, ?_, pages, hrep, hmapped⟩
    · rw [show d = _ from hd]
    · rw [show d = _ from hd]

/-- No word is marked as local or as a page of the cache. -/
def RemoteWords (space : AddressSpace) (word : Area → PteEntry → ℕ) : Prop :=
  ∀ a ∈ space.areas, ∀ p ∈ a.ptes, p.present = true →
    PhysAddr.bottomBit (word a p) = false ∧ PhysAddr.isCache (word a p) = false

variable {pages : ℕ → Option ℕ}

theorem cowWord_eq_or (a : Area) (p : PteEntry) :
    cowWord a p = pmemGetPhyFromPte p.pte + 4 ∨ cowWord a p = pmemGetPhyFromPte p.pte := by
  simp only [cowWord]
  generalize (if hasWritePermission a.vma = true then
    pmemClearPteWrite p.pte else p.pte) = pte
  split
  · exact Or.inl (PhysAddr.encode_eq (pmemGetPhyFromPte_mod_eight p.pte) .readOnly)
  · exact Or.inr rfl

theorem flags_of_mod_four {w : ℕ} (h : w % 4 = 0) :
    PhysAddr.bottomBit w = false ∧ PhysAddr.isCache w = false := by
  constructor
  · exact (PhysAddr.isPrefetch_eq_false_iff w).mpr (by omega)
  · rw [Bool.eq_false_iff, ne_eq, PhysAddr.isCache_iff]
    omega

theorem remoteWords_cow (space : AddressSpace) : RemoteWords space cowWord := by
  intro a _ p _ _
  have haligned := pmemGetPhyFromPte_mod_eight p.pte
  rcases cowWord_eq_or a p with hword | hword
  · exact flags_of_mod_four (by omega)
  · exact flags_of_mod_four (by omega)

theorem copyWord_page (hpages : AllocatesPages pages)
    (hall : ∀ a ∈ space.areas, ∀ p ∈ a.ptes, p.present = true →
      ∃ copied, pages p.addr = some copied) {a : Area} (ha : a ∈ space.areas) {p : PteEntry}
    (hp : p ∈ a.ptes) (hpres : p.present = true) :
    0 < copyWord pages a p ∧ copyWord pages a p % 4096 = 0 ∧ copyWord pages a p < 2 ^ 64 := by
  obtain ⟨copied, hcopied⟩ := hall a ha p hp hpres
  rw [copyWord, hcopied, Option.getD_some]
  exact hpages p.addr copied hcopied

theorem copyWord_fits (hpages : AllocatesPages pages)
    (hall : ∀ a ∈ space.areas, ∀ p ∈ a.ptes, p.present = true →
      ∃ copied, pages p.addr = some copied) : WordsFit space (copyWord pages) :=
  fun _ ha _ hp hpres =>
    have hpage := copyWord_page hpages hall ha hp hpres
    ⟨hpage.1, hpage.2.2⟩

theorem remoteWords_copy (hpages : AllocatesPages pages)
    (hall : ∀ a ∈ space.areas, ∀ p ∈ a.ptes, p.present = true →
      ∃ copied, pages p.addr = some copied) : RemoteWords space (copyWord pages) := by
  intro a ha p hp hpres
  obtain ⟨-, haligned, -⟩ := copyWord_page hpages hall ha hp hpres
  exact flags_of_mod_four (by omega)

variable {heap : Heap} {des : ChildDescriptor}

theorem Decodes.word_of_translate (h : Decodes space word regs heap des) {addr : VirtAddr}
    {w : PhysAddr} (hw : des.pageTable.translate heap addr = some w) :
    ∃ a ∈ space.areas, ∃ p ∈ a.ptes, p.present = true ∧ w = word a p := by
  obtain ⟨pages, hrep, hmapped⟩ := h.table
  rw [hrep.translate] at hw
  rcases hmapped.sound _ _ hw with hempty | hpair
  · rw [Finmap.lookup_empty] at hempty
    cases hempty
  · obtain ⟨a, ha, p, hp, hpres, -, heq⟩ := mem_pagePairs.mp hpair
    exact ⟨a, ha, p, hp, hpres, heq⟩

theorem toNat_ofNat_addr (addr : VirtAddr) : (UInt64.ofNat addr.addr).toNat = addr.addr := by
  have hcanonical := addr.canonical
  unfold Canonical at hcanonical
  rw [UInt64.toNat_ofNat']
  exact Nat.mod_eq_of_lt (by omega)

theorem lookupPgTable_ofNat (heap : Heap) (des : ChildDescriptor) (addr : VirtAddr) :
    des.lookupPgTable heap (.ofNat addr.addr) = .ok (des.pageTable.translate heap addr) := by
  rw [ChildDescriptor.lookupPgTable, toNat_ofNat_addr, VirtAddr.new_of_canonical addr.canonical]
  rfl

theorem Decodes.faithful (h : Decodes space word regs heap des) (hfit : OffsetsFit space) :
    Shadow.Faithful space (fun a p => PhysAddr.decode (word a p)) (des.lookupPgTable heap) := by
  obtain ⟨pages, hrep, hmapped⟩ := h.table
  exact (faithful_iff (fun _ _ _ _ _ => rfl) hrep hmapped).mpr hfit

/-! ## The child that starts from it -/

variable {f : Features} {alloc : PageAllocator} {info : AccessInfo}
  {prefetcher : Option (ℕ × AccessInfo)}

/-- The child that starts from a descriptor that was just decoded. -/
abbrev freshChild (heap : Heap) (des : ChildDescriptor) (info : AccessInfo)
    (prefetcher : Option (ℕ × AccessInfo)) : Child :=
  startChild (heap, des.pageTable) des info prefetcher

theorem Decodes.resumed (h : Decodes space word regs heap des) (hflags : RemoteWords space word) :
    Resumed (freshChild heap des info prefetcher) := by
  have hremote : ∀ addr w, des.pageTable.translate heap addr = some w →
      PhysAddr.bottomBit w = false := by
    intro addr w hw
    obtain ⟨a, ha, p, hp, hpres, rfl⟩ := h.word_of_translate hw
    exact (hflags a ha p hp hpres).1
  obtain ⟨pages, hrep, -⟩ := h.table
  cases prefetcher with
  | none => exact ⟨hrep.wellFormed, hremote, rfl, rfl, rfl, rfl⟩
  | some conn => exact ⟨hrep.wellFormed, hremote, rfl, rfl, rfl, rfl⟩

theorem Decodes.cacheHolds (h : Decodes space word regs heap des)
    (hflags : RemoteWords space word) (f : Features) (alloc : PageAllocator) :
    CacheHolds f alloc (freshChild heap des info prefetcher)
      (freshChild heap des info prefetcher).source where
  absent addr hnone := by
    rw [source_pageKey, hnone]
    rfl
  remote addr w hw _ := by
    rw [source_pageKey, hw]
    rfl
  cached addr w hw hc := by
    rw [lookupPgTable_startChild] at hw
    obtain ⟨a, ha, p, hp, hpres, rfl⟩ := h.word_of_translate hw
    rw [Features.cached, (hflags a ha p hp hpres).2, Bool.and_false] at hc
    cases hc

/-- What the fault of a forked child should show: the frame of its page, if the process had
one there. -/
theorem Decodes.expectedReport_eq (h : Decodes space word regs heap des)
    (hfit : OffsetsFit space) (fault : Fault) :
    let c := freshChild heap des info prefetcher
    (∀ a ∈ space.areas, ∀ p ∈ a.ptes, p.present = true →
      fault.address.addr / 4096 = p.addr / 4096 →
      expectedReport c.source c fault = .installed (.remote (PhysAddr.decode (word a p)))) ∧
    ((∀ a ∈ space.areas, ∀ p ∈ a.ptes, p.present = true →
        fault.address.addr / 4096 ≠ p.addr / 4096) →
      expectedReport c.source c fault = c.withoutPage fault.vmaStart) := by
  intro c
  have hfaithful := h.faithful hfit
  have hval := toNat_ofNat_addr fault.address
  have hlookup : c.lookupPgTable fault.address =
      des.pageTable.translate heap fault.address := lookupPgTable_startChild _ _ _ _ _
  constructor
  · intro a ha p hp hpres hpage
    obtain ⟨w, hw, hdecode⟩ := hfaithful.present a ha p hp hpres
      (.ofNat fault.address.addr) (by rw [hval]; exact hpage)
    rw [lookupPgTable_ofNat] at hw
    rw [expectedReport, source_pageKey, hlookup, Except.ok.inj hw, Option.map_some, hdecode]
  · intro hnone
    have hw := hfaithful.absent (.ofNat fault.address.addr)
      (by rw [hval]; exact fault.address.canonical) (by rw [hval]; exact hnone)
    rw [lookupPgTable_ofNat] at hw
    rw [expectedReport, source_pageKey, hlookup, Except.ok.inj hw, Option.map_none]

/-- Every fault of a run shows what it should, if all READs succeed and no fault comes back
to a slot whose page was handed out. -/
theorem Decodes.reports (h : Decodes space word regs heap des) (hflags : RemoteWords space word)
    {actions : List ChildAction}
    (hreads : (childMachine f alloc).Always (ReadsSucceed f alloc)
      (freshChild heap des info prefetcher) actions)
    (hfresh : (childMachine f alloc).Always (NotRevisited f)
      (freshChild heap des info prefetcher) actions) :
    let c₀ := freshChild heap des info prefetcher
    (childMachine f alloc).Always
      (fun c act => ∀ fault env, act = .fault fault env →
        (c.faultStep f alloc fault env).2 = expectedReport c₀.source c₀ fault) c₀ actions := by
  intro c₀
  have hresumed : Resumed c₀ := h.resumed hflags
  have hserving := hresumed.serving (h.cacheHolds hflags f alloc)
  refine Machine.always_of_invariant _ ?_ hserving (Machine.always_and.mpr ⟨hreads, hfresh⟩)
  rintro c act hc ⟨hok, hnot⟩
  refine ⟨hc.step (fun _ => Iff.rfl) hok, ?_⟩
  rintro fault env rfl
  exact ((hc.fault c₀ (fun _ => Iff.rfl) rfl hok).2).mpr hnot

end Decoded

/-! ## From the prepare to the faults -/

section Forked

variable {α : Type} {K : MemoryKernel ProcessPage ℕ α}

/-- The report of a fault shows what a process saw in its page in the state `s`: the page
was filled by a READ of some frame, and every such READ through the target, from the state
`s'` on, finds that. -/
def ShowsPage (s s' : ParentNode α) (later : List (ParentAction K)) (target pid addr : ℕ)
    (report : FaultReport) : Prop :=
  ∃ frame, report = .installed (.remote frame) ∧
    (parentMachine K).Always (fun u act => act = .read target frame →
      ((parentMachine K).step u act).2 = .read (sees s.memory pid addr)) s' later

/-- What a child shows of a process: its registers and its areas, and at every fault of a
run the page of the process if it had one there, as far as `covered` goes. -/
structure ShowsProcess (f : Features) (alloc : PageAllocator) (space : AddressSpace)
    (regs : RegDescriptor) (covered : Area → PteEntry → Prop)
    (shows : PteEntry → FaultReport → Prop) (c₀ : Child) (actions : List ChildAction) :
    Prop where
  regs : c₀.descriptor.regs = regs
  vma : c₀.descriptor.vma = space.areas.map Area.vma
  page : (childMachine f alloc).Always
    (fun c act => ∀ fault env, act = .fault fault env →
      ∀ a ∈ space.areas, ∀ p ∈ a.ptes, p.present = true →
        fault.address.addr / 4096 = p.addr / 4096 → covered a p →
        shows p (c.faultStep f alloc fault env).2) c₀ actions
  noPage : (childMachine f alloc).Always
    (fun c act => ∀ fault env, act = .fault fault env →
      (∀ a ∈ space.areas, ∀ p ∈ a.ptes, p.present = true →
        fault.address.addr / 4096 ≠ p.addr / 4096) →
      (c.faultStep f alloc fault env).2 = c₀.withoutPage fault.vmaStart) c₀ actions

/-- The system call resumes from bytes that hold the descriptor `d`, and not from a table
in the cache; `r` is what the handler keeps. -/
structure ResumesFrom (f : Features) (L : Layout) (cache : RemotePageTableCache) (pool : DCPool)
    (machineId handlerId : ℕ) (env : ResumeEnv) (d : ParentDescriptor) (r : ResumeData) :
    Prop where
  fetched : ∃ b m, env.fetched = .ok (b, m) ∧ d.serializationBufLen L ≤ b.len ∧
    Support.Holds m b.ptr (d.image L)
  uncached : f.pageCache = true → cache.lookup machineId handlerId = none
  kept : (syscallResumeWRpc f L cache pool none machineId handlerId env).2.1 = some r

variable {f : Features} {alloc : PageAllocator} {L : Layout} {cache : RemotePageTableCache}
  {pool : DCPool} {machineId handlerId : ℕ} {env : ResumeEnv} {r : ResumeData}
  {space : AddressSpace} {regs : RegDescriptor} {rdma : RDMADescriptor}
  {actions : List ChildAction}

variable {word : Area → PteEntry → ℕ} {d : ParentDescriptor}

theorem startTable_of_uncached (h : f.pageCache = true → cache.lookup machineId handlerId = none)
    (table : Heap × RemotePageTable) : startTable f cache machineId handlerId table = table := by
  unfold startTable
  split
  · next hf => rw [h hf]
  · rfl

theorem ResumesFrom.exists_child (h : ResumesFrom f L cache pool machineId handlerId env d r)
    (hd : Describes space word regs rdma d) (hword : WordsFit space word) :
    ∃ heap des info prefetcher, Decodes space word regs heap des ∧
      r.child = freshChild heap des info prefetcher := by
  obtain ⟨b, m, hfetched, hlen, hholds⟩ := h.fetched
  obtain ⟨heap, des, info, prefetcher, ⟨b', m', hfetched', hdes⟩, rfl⟩ :=
    eq_of_syscallResumeWRpc h.kept
  rw [hfetched] at hfetched'
  cases hfetched'
  refine ⟨heap, des, info, prefetcher, decodes_of_holds hd hword hlen hholds hdes, ?_⟩
  rw [startTable_of_uncached h.uncached]

theorem ResumesFrom.showsProcess (h : ResumesFrom f L cache pool machineId handlerId env d r)
    (hd : Describes space word regs rdma d) (hword : WordsFit space word)
    (hflags : RemoteWords space word) (hfit : OffsetsFit space)
    (hreads : (childMachine f alloc).Always (ReadsSucceed f alloc) r.child actions)
    (hfresh : (childMachine f alloc).Always (NotRevisited f) r.child actions)
    {covered : Area → PteEntry → Prop} {shows : PteEntry → FaultReport → Prop}
    (hshows : ∀ a ∈ space.areas, ∀ p ∈ a.ptes, p.present = true → covered a p →
      shows p (.installed (.remote (PhysAddr.decode (word a p))))) :
    ShowsProcess f alloc space regs covered shows r.child actions := by
  obtain ⟨heap, des, info, prefetcher, hdecodes, hchild⟩ := h.exists_child hd hword
  rw [hchild] at hreads hfresh ⊢
  have hreports := hdecodes.reports hflags hreads hfresh
  constructor
  case regs =>
    rw [← hdecodes.regs]
    cases prefetcher <;> rfl
  case vma =>
    rw [← hdecodes.vma]
    cases prefetcher <;> rfl
  case page =>
    refine Machine.always_of_invariant (fun _ => True) (fun c act _ hact => ⟨trivial, ?_⟩)
      trivial hreports
    intro fault env heq a ha p hp hpres hpage hcov
    rw [hact fault env heq, (hdecodes.expectedReport_eq hfit fault).1 a ha p hp hpres hpage]
    exact hshows a ha p hp hpres hcov
  case noPage =>
    refine Machine.always_of_invariant (fun _ => True) (fun c act _ hact => ⟨trivial, ?_⟩)
      trivial hreports
    intro fault env heq hnone
    rw [hact fault env heq]
    exact (hdecodes.expectedReport_eq hfit fault).2 hnone

theorem sampleWindow_inAddressSpace : 0x1000 + 320 ≤ 2 ^ 64 := by decide

/-- The bytes of a descriptor arrive, and nothing else fails. -/
def sampleResume (d : ParentDescriptor) : ResumeEnv where
  reply := some ⟨0x1000, 320, true, 0, 0, (0, 0), 0, 0⟩
  fetched := .ok (⟨0x1000, 320, sampleWindow_inAddressSpace⟩,
    writeBytes (fun _ => 0) 0x1000 (d.image Layout.packed))
  prefetchInfo := some ⟨0, 0, 0⟩
  accessInfo := some ⟨0, 0, 0⟩
  applyInfo := some ⟨0, 0, 0⟩
  mapped := true

/-- What the handler keeps of such a resume, if anything. -/
abbrev sampleKept (d : ParentDescriptor) : Option ResumeData :=
  (syscallResumeWRpc ⟨true, false, false⟩ Layout.packed ⟨∅⟩ ⟨[1]⟩ none 0 7 (sampleResume d)).2.1

theorem sampleKept_isSome_cow :
    (sampleKept (newCow sampleSpace sampleRegs sampleRdma).descriptor).isSome = true := by
  decide +kernel

theorem offsetsFit_sampleSpace : OffsetsFit sampleSpace := by
  intro a ha p hp _
  cases List.mem_singleton.mp ha
  cases List.mem_singleton.mp hp
  decide

/-- Fork with copies: the same for every page that the process had. -/
theorem copy_child_shows_process {content : ℕ → α} {ofFile : ℕ → Bool}
    {as bs : List (ParentAction K)} {pid t : ℕ} {pages : ℕ → Option ℕ} {sp : ShadowProcess}
    (hpages : AllocatesPages pages) (hnew : newCopy pages space regs rdma = .ok sp)
    (hprepared : ((parentMachine K).step ((parentMachine K).run (.boot content ofFile) as)
      (.prepareCopy pid space pages regs rdma)).2 = .prepared t)
    (hbs : .dropPage t ∉ bs) (hfit : OffsetsFit space)
    (hresume : ResumesFrom f L cache pool machineId handlerId env sp.descriptor r)
    (hreads : (childMachine f alloc).Always (ReadsSucceed f alloc) r.child actions)
    (hfresh : (childMachine f alloc).Always (NotRevisited f) r.child actions) :
    let s := (parentMachine K).run (.boot content ofFile) as
    let s' := ((parentMachine K).step s (.prepareCopy pid space pages regs rdma)).1
    ShowsProcess f alloc space regs (fun _ _ => True)
      (fun p => ShowsPage s s' bs t pid p.addr) r.child actions := by
  intro s s'
  have hs : Accounted s := accounted_run content ofFile as
  obtain ⟨hall, htables⟩ := newCopy_tables hnew
  refine hresume.showsProcess htables (copyWord_fits hpages hall)
    (remoteWords_copy hpages hall) hfit hreads hfresh ?_
  intro a ha p hp hpres _
  obtain ⟨c, hsees, hholds⟩ := hs.holds_prepareCopy hpages hprepared ha hp hpres
  refine ⟨_, rfl, ?_⟩
  rw [hsees]
  exact hholds.reads (hs.step _) hbs

/-- The shadow process of the sample with its one page copied. -/
def sampleCopy : ShadowProcess :=
  match newCopy (fun _ => some 0x8000) sampleSpace sampleRegs sampleRdma with
  | .ok sp => sp
  | .error _ => newCow sampleSpace sampleRegs sampleRdma

theorem newCopy_sampleCopy :
    newCopy (fun _ => some 0x8000) sampleSpace sampleRegs sampleRdma = .ok sampleCopy := rfl

theorem sampleKept_isSome_copy : (sampleKept sampleCopy.descriptor).isSome = true := by
  decide +kernel

theorem copy_child_shows_process_one_page :
    let s := (parentMachine sampleMemoryKernel).run (.boot (fun _ => 0) fun _ => false) sampleTouch
    let s' := ((parentMachine sampleMemoryKernel).step s
      (.prepareCopy 1 sampleSpace (fun _ => some 0x8000) sampleRegs sampleRdma)).1
    ShowsProcess ⟨true, false, false⟩ sampleAlloc sampleSpace sampleRegs (fun _ _ => True)
      (fun p => ShowsPage s s' sampleWrites 0 1 p.addr)
      (Option.get _ sampleKept_isSome_copy).child [sampleFault ⟨0x10000000000, by decide⟩] := by
  intro s s'
  refine copy_child_shows_process (fun _ _ h => Option.some.inj h ▸ by decide)
    newCopy_sampleCopy (by decide +kernel) (by simp [sampleWrites]) offsetsFit_sampleSpace
    ⟨⟨_, _, rfl, by decide +kernel, holds_writeBytes _ _ _⟩, nofun, (Option.some_get _).symm⟩
    ⟨?_, trivial⟩ ⟨fun _ => ?_, trivial⟩
  · exact readsSucceed_fault rfl (by decide +kernel) rfl (by decide) (by decide +kernel)
  · decide +kernel

end Forked

end Mitosis.Resume
