import Mitosis.Fetch.Eager
import Mitosis.Resume.ForkedMemory

/-!
# The memory of a child that resumes eagerly

A child that was built with `eager-resume` has its pages before it runs.  The batches post
the words of the descriptor as they are, so the frames that are read are those of the
process only if the words have no flag.  That is so for a shadow process that holds copies;
one that shares the frames marks every word read-only.
-/

namespace Mitosis.Resume

open Support Descriptors OsNetwork Prefetcher RemoteMapping PageFault Shadow Fetch
open RemotePaging (AccessInfo)

theorem exists_mem_pages {u : UserArea} {a : Area} (h : u.vma = a.vma) {p : PteEntry}
    (hp : p ∈ a.ptes) : ∃ va ∈ u.pages, va.addr = p.addr := by
  obtain ⟨hge, hlt, haligned⟩ := a.inside p hp
  have hstart := a.startAligned
  rw [← h] at hge hlt hstart
  have hsize : u.vma.getSz.toNat = u.vma.getEnd.toNat - u.vma.getStart.toNat :=
    UInt64.toNat_sub_of_le _ _ u.ordered
  have hi : (p.addr - u.vma.getStart.toNat) / 4096 < u.pageCount := by
    unfold UserArea.pageCount
    omega
  refine ⟨_, List.mem_map.mpr ⟨⟨_, hi⟩, List.mem_finRange _, rfl⟩, ?_⟩
  dsimp only
  omega

section Words

variable {space : AddressSpace} {word : Area → PteEntry → ℕ} {regs : RegDescriptor}
  {heap : Heap} {des : ChildDescriptor}

/-- The words are frames. -/
def PlainWords (space : AddressSpace) (word : Area → PteEntry → ℕ) : Prop :=
  ∀ a ∈ space.areas, ∀ p ∈ a.ptes, p.present = true → PhysAddr.decode (word a p) = word a p

theorem Decodes.translate_eq_word (h : Decodes space word regs heap des)
    (hfit : OffsetsFit space) (hplain : PlainWords space word) {a : Area} (ha : a ∈ space.areas)
    {p : PteEntry} (hp : p ∈ a.ptes) (hpres : p.present = true) {va : VirtAddr}
    (hva : va.addr / 4096 = p.addr / 4096) :
    des.pageTable.translate heap va = some (word a p) := by
  obtain ⟨w, hw, hdecode⟩ := (h.faithful hfit).present a ha p hp hpres (.ofNat va.addr)
    (by rw [toNat_ofNat_addr]; exact hva)
  rw [lookupPgTable_ofNat] at hw
  have hfound := Except.ok.inj hw
  obtain ⟨a', ha', p', hp', hpres', rfl⟩ := h.word_of_translate hfound
  rw [hplain a' ha' p' hp' hpres', hplain a ha p hp hpres] at hdecode
  rw [hfound, hdecode]

theorem Decodes.exists_of_translate (h : Decodes space word regs heap des)
    (hfit : OffsetsFit space) {va : VirtAddr} {w : PhysAddr}
    (hw : des.pageTable.translate heap va = some w) :
    ∃ a ∈ space.areas, ∃ p ∈ a.ptes, p.present = true ∧ va.addr / 4096 = p.addr / 4096 := by
  by_contra hnone
  push Not at hnone
  have habsent := (h.faithful hfit).absent (.ofNat va.addr)
    (by rw [toNat_ofNat_addr]; exact va.canonical)
    (by rw [toNat_ofNat_addr]; exact hnone)
  rw [lookupPgTable_ofNat, hw] at habsent
  cases Except.ok.inj habsent

theorem plainWords_copy {pages : ℕ → Option ℕ} (hpages : AllocatesPages pages)
    (hall : ∀ a ∈ space.areas, ∀ p ∈ a.ptes, p.present = true →
      ∃ copied, pages p.addr = some copied) : PlainWords space (copyWord pages) := by
  intro a ha p hp hpres
  obtain ⟨-, haligned, hlt⟩ := copyWord_page hpages hall ha hp hpres
  rw [PhysAddr.decode_eq hlt]
  omega

end Words

variable {α : Type} {K : MemoryKernel ProcessPage ℕ α} {f : Features} {L : Layout}
  {cache : RemotePageTableCache} {pool : DCPool} {machineId handlerId : ℕ} {env : ResumeEnv}
  {r : ResumeData} {space : AddressSpace} {regs : RegDescriptor} {rdma : RDMADescriptor}

/-- Fork with copies and an eager resume whose batches are confirmed: the pages that are
inserted are those that the process had, and each was filled by a READ that has finished,
of a frame that holds what the process saw in the page when it was prepared. -/
theorem eager_child_shows_process {content : ℕ → α} {ofFile : ℕ → Bool}
    {as bs : List (ParentAction K)} {pid t : ℕ} {pages : ℕ → Option ℕ} {sp : ShadowProcess}
    (hpages : AllocatesPages pages) (hnew : newCopy pages space regs rdma = .ok sp)
    (hprepared : ((parentMachine K).step ((parentMachine K).run (.boot content ofFile) as)
      (.prepareCopy pid space pages regs rdma)).2 = .prepared t)
    (hbs : .dropPage t ∉ bs) (hfit : OffsetsFit space)
    (hresume : ResumesFrom f L cache pool machineId handlerId env sp.descriptor r)
    (info : AccessInfo) (eager : EagerEnv) {queues : Queues}
    (hvalid : ∀ id, (queues id).Valid) (areas : List UserArea)
    (hareas : areas.map UserArea.vma = r.child.descriptor.vma)
    (hreads : (eagerMachine r.child.lookupPgTable info eager).Always
      (BatchReads r.child.lookupPgTable info eager) (.start queues) (eagerBatches areas))
    (hinserts : ∀ va ∈ areas.flatMap UserArea.pages, eager.inserts va = true) :
    let s := (parentMachine K).run (.boot content ofFile) as
    let s' := ((parentMachine K).step s (.prepareCopy pid space pages regs rdma)).1
    let e := eagerResume r.child.lookupPgTable info eager (.start queues) areas
    (∀ z ∈ e.installed, ∃ a ∈ space.areas, ∃ p ∈ a.ptes, p.present = true ∧
      z.1.addr / 4096 = p.addr / 4096) ∧
    ∀ a ∈ space.areas, ∀ p ∈ a.ptes, p.present = true →
      ∃ z ∈ e.installed, z.1.addr = p.addr ∧
        ∃ rec ∈ e.records, rec.page = z.2 ∧ ∃ rd, rec.read = some rd ∧
          (e.queues rec.queue).finished[rd.serial]? = some .success ∧
          (parentMachine K).Always (fun u act => act = .read t rd.raddr →
            ((parentMachine K).step u act).2 = .read (sees s.memory pid p.addr)) s' bs := by
  intro s s' e
  have hs : Accounted s := accounted_run content ofFile as
  obtain ⟨hall, htables⟩ := newCopy_tables hnew
  obtain ⟨heap, des, cinfo, prefetcher, hdecodes, hchild⟩ :=
    hresume.exists_child htables (copyWord_fits hpages hall)
  have hplain := plainWords_copy hpages hall
  have hlookup : r.child.lookupPgTable = des.pageTable.translate heap := by
    funext va
    rw [hchild]
    exact lookupPgTable_startChild _ _ _ _ _
  have hvma : areas.map UserArea.vma = space.areas.map Area.vma := by
    rw [hareas, hchild, ← hdecodes.vma]
    cases prefetcher <;> rfl
  have hinstalled : e.installed.map Prod.fst = _ := installed_eagerResume hvalid hreads hinserts
  have hshown : e.Shown r.child.lookupPgTable := shown_eagerResume hvalid hreads
  constructor
  · intro z hz
    obtain ⟨rec, -, -, rd, -, -, hword⟩ := hshown.read z hz
    rw [hlookup] at hword
    exact hdecodes.exists_of_translate hfit hword
  · intro a ha p hp hpres
    obtain ⟨u, hu, huvma⟩ := List.mem_map.mp
      (hvma ▸ List.mem_map_of_mem ha : a.vma ∈ areas.map UserArea.vma)
    obtain ⟨va, hva, haddr⟩ := exists_mem_pages huvma hp
    have hword : r.child.lookupPgTable va = some (copyWord pages a p) := by
      rw [hlookup]
      exact hdecodes.translate_eq_word hfit hplain ha hp hpres (by rw [haddr])
    have hmem : va ∈ e.installed.map Prod.fst := by
      rw [hinstalled]
      refine List.mem_filter.mpr ⟨List.mem_flatMap.mpr ⟨u, hu, hva⟩, ?_⟩
      rw [hword]
      rfl
    obtain ⟨z, hz, rfl⟩ := List.mem_map.mp hmem
    obtain ⟨rec, hrec, hpage, rd, hrd, hsuccess, hraddr⟩ := hshown.read z hz
    refine ⟨z, hz, haddr, rec, hrec, hpage, rd, hrd, hsuccess, ?_⟩
    rw [hword] at hraddr
    obtain ⟨c, hsees, hholds⟩ := hs.holds_prepareCopy hpages hprepared ha hp hpres
    rw [← Option.some.inj hraddr, ← hplain a ha p hp hpres, hsees]
    exact hholds.reads (hs.step _) hbs

/-- What the handler keeps when the sample with its copied page is resumed. -/
abbrev sampleEagerKept : ResumeData := Option.get _ sampleKept_isSome_copy

/-- The READ of the one page succeeds. -/
def sampleEagerEnv : EagerEnv where
  post va := ⟨0, va.addr, none⟩
  polls _ := [(⟨[.success], none⟩, 10)]
  inserts _ := true

def samplePageArea : UserArea := ⟨pageArea.vma, by decide, by decide⟩

theorem eagerBatches_samplePageArea :
    eagerBatches [samplePageArea] = [[⟨0x10000000000, by decide⟩]] := by
  decide +kernel

theorem lastConfirms_one_page :
    LastConfirms sampleEagerKept.child.lookupPgTable ⟨0, 7, 1⟩ [(⟨[.success], none⟩, 10)]
      (fun _ => .empty) [] ⟨0x10000000000, by decide⟩ ⟨0, 0x10000000000, none⟩ where
  posted := rfl
  confirmed := ⟨0x8000, by decide +kernel, _, (0, .success),
    Prod.ext rfl (by decide +kernel), by decide +kernel⟩
  earlier := nofun

theorem eager_child_shows_process_one_page :
    let e := eagerResume sampleEagerKept.child.lookupPgTable ⟨0, 7, 1⟩ sampleEagerEnv
      (.start fun _ => .empty) [samplePageArea]
    ∃ z ∈ e.installed, z.1.addr = samplePage.addr := by
  intro e
  have hprepared : ((parentMachine sampleMemoryKernel).step
      ((parentMachine sampleMemoryKernel).run (.boot (fun _ => 0) fun _ => false) sampleTouch)
      (.prepareCopy 1 sampleSpace (fun _ => some 0x8000) sampleRegs sampleRdma)).2 =
        .prepared 0 := by decide +kernel
  have hbs : .dropPage 0 ∉ sampleWrites := by simp [sampleWrites]
  have hresume : ResumesFrom ⟨true, false, false⟩ Layout.packed ⟨∅⟩ ⟨[1]⟩ 0 7
      (sampleResume sampleCopy.descriptor) sampleCopy.descriptor sampleEagerKept :=
    ⟨⟨_, _, rfl, by decide +kernel, holds_writeBytes _ _ _⟩,
      fun h => absurd h Bool.false_ne_true, (Option.some_get _).symm⟩
  have hreads : (eagerMachine sampleEagerKept.child.lookupPgTable ⟨0, 7, 1⟩
      sampleEagerEnv).Always (BatchReads sampleEagerKept.child.lookupPgTable ⟨0, 7, 1⟩
        sampleEagerEnv) (.start fun _ => .empty) (eagerBatches [samplePageArea]) := by
    rw [eagerBatches_samplePageArea]
    exact ⟨Or.inr ⟨[], _, rfl, by decide +kernel, lastConfirms_one_page⟩, trivial⟩
  obtain ⟨z, hz, haddr, -⟩ := (eager_child_shows_process
    (fun _ _ h => Option.some.inj h ▸ by decide) newCopy_sampleCopy hprepared hbs
    offsetsFit_sampleSpace hresume ⟨0, 7, 1⟩ sampleEagerEnv (fun _ => SendQueue.valid_empty)
    [samplePageArea] (by decide +kernel) hreads fun _ _ => rfl).2 pageArea List.mem_cons_self
    samplePage List.mem_cons_self (by decide)
  exact ⟨z, hz, haddr⟩

end Mitosis.Resume
