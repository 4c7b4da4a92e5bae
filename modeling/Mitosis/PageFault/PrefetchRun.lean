import Mitosis.PageFault.Refinement
import Mitosis.Prefetcher.Drop

/-!
# Runs of a child built with prefetch

Faults, completions of the prefetch connection and polls may come in any order.
The pending entries are the marked slots, every page allocated for a prefetch
has exactly one reference, and once the connection is drained the table frees
the pages that were not handed out.
-/

namespace Mitosis.PageFault

open Mitosis.Descriptors
open Mitosis.OsNetwork
open Mitosis.Prefetcher
open Mitosis.RemoteMapping
open Mitosis.Support (Machine)

/-- A fault finds memory, the driver takes its posts, and the polls of the
prefetch connection do not fail.  The READ of the fault may end in any way. -/
def FaultsWork (alloc : PageAllocator) (c : Child) : ChildAction → Prop
  | .fault _ env =>
    HasMemory alloc c ∧ env.postError = none ∧ ∀ e ∈ env.prefetchPolls, e.pollError = none
  | .complete _ => True
  | .poll _ => True

/-- The places of the pending entries. -/
def Child.pendingSlots (c : Child) : List (Ptr × PageTableIndex) :=
  c.exec.prefetcher.pendingQueues.map fun e => (e.pt, e.idx)

/-- A level-one slot of the child's table with the given word. -/
def Child.SlotHolds (c : Child) (pt : Ptr) (idx : PageTableIndex) (w : PhysAddr) : Prop :=
  LevelOnePage c.exec.heap c.descriptor.pageTable pt ∧ (c.exec.heap.node pt).entries idx = w

/-- The ways to refer to a page: the number of a pending entry, a slot, or the
number of a handout. -/
inductive Reference where
  | pending (i : ℕ)
  | slot (pt : Ptr) (idx : PageTableIndex)
  | handed (i : ℕ)
deriving DecidableEq

def Child.Refers (c : Child) (page : ℕ) : Reference → Prop
  | .pending i => (c.exec.prefetcher.pendingQueues.map ReplyEntry.userPage)[i]? = some page
  | .slot pt idx => c.SlotHolds pt idx (PhysAddr.encode page PhysAddrBitFlag.prefetch.bits)
  | .handed i => (c.handed.map Prod.snd)[i]? = some page

/-! ## What the view says about the child -/

section Reading

variable {σ : Setup} {areas : List VMADescriptor} {c : Child} {v : SlotView}

theorem Follows.levelOnePage_iff (hF : Follows σ areas c v) {pt : Ptr} :
    LevelOnePage c.exec.heap c.descriptor.pageTable pt ↔ ∃ key, σ.node key = some pt := by
  rw [RemoteMapping.levelOnePage_iff]
  simp only [← hF.exec.table.nodes, ← hF.root]
  rfl

theorem Follows.slotHolds_iff (hF : Follows σ areas c v) {pt : Ptr} {idx : PageTableIndex}
    {w : PhysAddr} (hw : w ≠ 0) :
    c.SlotHolds pt idx w ↔ ∃ slot, σ.SlotAt pt idx slot ∧ v.word slot = some w := by
  unfold Child.SlotHolds
  rw [hF.levelOnePage_iff]
  constructor
  · rintro ⟨⟨key, hkey⟩, hentry⟩
    have hs : σ.SlotAt pt idx (512 * key + idx.val) :=
      ⟨by rw [child_div]; exact hkey, newTruncate_child key idx⟩
    exact ⟨_, hs, (hF.exec.table.entries_eq_iff hs hw).mp hentry⟩
  · rintro ⟨slot, hs, hword⟩
    exact ⟨⟨_, hs.node⟩, hF.exec.table.entries_eq hs hword⟩

theorem Follows.pendingSlots_spec (hF : Follows σ areas c v) (hv : v.Inv) :
    c.pendingSlots.Nodup ∧
      ∀ pt idx, (pt, idx) ∈ c.pendingSlots ↔ c.SlotHolds pt idx kMagicInPrefetch := by
  have hbi := hF.exec.table.slotAt_biUnique
  have hplaces := hF.exec.places
  refine ⟨(List.rel_nodup hbi hplaces).mpr hv.slotsNodup, ?_⟩
  intro pt idx
  rw [hF.slotHolds_iff (by decide)]
  constructor
  · intro hmem
    obtain ⟨slot, hslot, hs⟩ := exists_related hplaces hmem
    exact ⟨slot, hs, (hv.marked slot).mpr hslot⟩
  · rintro ⟨slot, hs, hword⟩
    have hrel := List.rel_mem hbi (a := (pt, idx)) hs hplaces
    exact hrel.mpr ((hv.marked slot).mp hword)

/-- The holder of the page that a kind of reference stands for. -/
def HeldThrough (σ : Setup) (v : SlotView) (page : ℕ) : Reference → Prop
  | .pending _ => v.holder page = .fetch
  | .slot pt idx => ∃ slot, σ.SlotAt pt idx slot ∧ v.holder page = .slot slot
  | .handed _ => v.holder page = .process

theorem Follows.holder_of_refers (hF : Follows σ areas c v) (hv : v.Inv) {page : ℕ}
    {r : Reference} (hr : c.Refers page r) (hpage : (v.holder page).Prefetched) :
    HeldThrough σ v page r := by
  have hvalid : ValidPage page := hv.valid page (by rintro h; simp [h, Holder.Prefetched] at hpage)
  cases r with
  | pending i =>
    rw [Child.Refers, hF.exec.userPages] at hr
    exact (hv.fetching page).mpr (List.mem_of_getElem? hr)
  | slot pt idx =>
    have hne : localWord page ≠ 0 := by
      rw [hvalid.localWord_eq]
      exact Nat.succ_ne_zero page
    obtain ⟨slot, hs, hword⟩ := (hF.slotHolds_iff hne).mp hr
    have hholder := (hv.holder_decode hword hvalid.bottomBit_localWord
      hvalid.localWord_ne_magic).1
    rw [hvalid.decode_localWord] at hholder
    exact ⟨slot, hs, hholder⟩
  | handed i =>
    rw [Child.Refers, hF.handed] at hr
    exact (hv.handedOut page).mpr (List.mem_of_getElem? hr)

/-- A page allocated for a prefetch is referred to exactly once. -/
theorem Follows.existsUnique_refers (hF : Follows σ areas c v) (hv : v.Inv) {page : ℕ}
    (hissued : page ∈ c.exec.issued) : ∃! r, c.Refers page r := by
  have hpage := (hF.exec.issued page).mp hissued
  cases hcase : v.holder page with
  | nobody | blank | filled =>
    rw [hcase] at hpage
    exact hpage.elim
  | fetch =>
    obtain ⟨i, hi⟩ := List.mem_iff_getElem?.mp ((hv.fetching page).mp hcase)
    rw [← hF.exec.userPages] at hi
    refine ⟨.pending i, hi, ?_⟩
    intro r hr
    have hr' := hF.holder_of_refers hv hr hpage
    cases r with
    | pending j =>
      have hnodup := hv.pagesNodup
      rw [← hF.exec.userPages] at hnodup
      have hlt := (List.getElem?_eq_some_iff.mp hi).1
      rw [(List.getElem?_inj hlt hnodup).mp (hi.trans hr.symm)]
    | slot pt idx => simp [HeldThrough, hcase] at hr'
    | handed j => simp [HeldThrough, hcase] at hr'
  | slot k =>
    have hword := hv.inSlot page k hcase
    have hne : localWord page ≠ 0 := by
      rw [(hv.valid_of hcase (by simp)).localWord_eq]
      exact Nat.succ_ne_zero page
    obtain ⟨pt, hs⟩ := hF.exec.table.exists_slotAt hword
    refine ⟨.slot pt _, (hF.slotHolds_iff hne).mpr ⟨k, hs, hword⟩, ?_⟩
    intro r hr
    have hr' := hF.holder_of_refers hv hr hpage
    cases r with
    | pending j => simp [HeldThrough, hcase] at hr'
    | slot pt' idx' =>
      obtain ⟨k', hs', hk'⟩ := hr'
      obtain rfl : k = k' := Holder.slot.inj (hcase.symm.trans hk')
      rw [Option.some.inj (hs'.node.symm.trans hs.node), ← hs'.index]
    | handed j => simp [HeldThrough, hcase] at hr'
  | process =>
    obtain ⟨i, hi⟩ := List.mem_iff_getElem?.mp ((hv.handedOut page).mp hcase)
    rw [← hF.handed] at hi
    refine ⟨.handed i, hi, ?_⟩
    intro r hr
    have hr' := hF.holder_of_refers hv hr hpage
    cases r with
    | pending j => simp [HeldThrough, hcase] at hr'
    | slot pt idx => simp [HeldThrough, hcase] at hr'
    | handed j =>
      have hnodup := hv.handedNodup
      rw [← hF.handed] at hnodup
      have hlt := (List.getElem?_eq_some_iff.mp hi).1
      rw [(List.getElem?_inj hlt hnodup).mp (hi.trans hr.symm)]

/-- Without READs under way, the table frees the pages that were not handed
out. -/
theorem Follows.frees_dropTable (hF : Follows σ areas c v) (hv : v.Inv)
    (hqueue : v.queue = []) :
    (∀ pt idx, ¬ c.SlotHolds pt idx kMagicInPrefetch) ∧
      Frees (dropTable c.exec.heap c.descriptor.pageTable)
        (fun page => page ∈ c.exec.issued ∧ page ∉ c.handed.map Prod.snd) := by
  have hmark : ∀ k, v.word k ≠ some kMagicInPrefetch := by
    intro k hk
    have hmem := (hv.marked k).mp hk
    rw [hqueue] at hmem
    cases hmem
  have hholds : ∀ k page, HoldsPage v.word k page ↔ v.holder page = .slot k := by
    intro k page
    constructor
    · rintro ⟨w, hw, hbit, rfl⟩
      exact (hv.holder_decode hw hbit (by rintro rfl; exact hmark k hw)).1
    · intro hpage
      have hvalid : ValidPage page := hv.valid_of hpage (by simp)
      exact ⟨_, hv.inSlot page k hpage, hvalid.bottomBit_localWord, hvalid.decode_localWord⟩
  have hlinked := hF.exec.table.wellFormed.toLinked
  have hwords := hF.exec.table.words
  rw [← hF.root] at hlinked
  simp only [← hF.root] at hwords
  refine ⟨?_, (Prefetcher.frees_dropTable hlinked hwords hmark ?_).congr ?_⟩
  · intro pt idx hslot
    obtain ⟨k, -, hk⟩ := (hF.slotHolds_iff (by decide)).mp hslot
    exact hmark k hk
  · intro k k' page hk hk'
    rw [hholds] at hk hk'
    exact Holder.slot.inj (hk.symm.trans hk')
  · intro page
    simp only [hholds, hF.exec.issued, hF.handed, ← hv.handedOut]
    cases hcase : v.holder page with
    | fetch =>
      have hmem := (hv.fetching page).mp hcase
      rw [hqueue] at hmem
      cases hmem
    | _ => simp [Holder.Prefetched]

end Reading

/-! ## Runs -/

section Runs

variable {areas : List VMADescriptor} {c : Child} {f : Features} {alloc : PageAllocator}

/-- The child follows some view in which every page has one holder. -/
def Accounted (σ : Setup) (areas : List VMADescriptor) (c : Child) : Prop :=
  ∃ v : SlotView, v.Inv ∧ Follows σ areas c v

theorem Accounted.step {σ : Setup} (hstatus : ∀ st, σ.status st) (hf : f.prefetch = true)
    (hc : Accounted σ areas c) {a : ChildAction} (ha : FaultsWork σ.alloc c a) :
    Accounted σ areas ((childMachine f σ.alloc).step c a).1 ∧
      ∀ h, ((childMachine f σ.alloc).step c a).2 ≠ some (.halted h) := by
  obtain ⟨v, hv, hF⟩ := hc
  cases a with
  | fault fault env =>
    obtain ⟨hmem, hpost, hpolls⟩ := ha
    have henv : env.Quiet σ := ⟨hpost, fun e he => ⟨hpolls e he, fun st _ => hstatus st⟩⟩
    obtain ⟨c', r, v', hfault, hrun, hF'⟩ := hF.handlePageFault hf hv fault hmem henv
    simp only [childMachine, Child.faultStep, hfault]
    refine ⟨⟨v', hv.run hrun, hF'⟩, ?_⟩
    cases r with
    | installed page => simp [Child.report]
    | sigsegv => simp [Child.report]
  | complete status =>
    have harr : ∀ st ∈ [status], σ.status st := fun st _ => hstatus st
    have hT := hF.exec.arrive harr
    exact ⟨⟨v, hv, hF.root, hF.areas, hT, hF.handed⟩, by simp [childMachine]⟩
  | poll e =>
    simp only [childMachine, Child.pollOnce]
    rcases hF.exec.poll_cases hv (fun st _ => hstatus st) with
      ⟨x, err, -, hp, hT⟩ | ⟨x, -, hp, hT⟩ | ⟨x, fetch, rest, status, -, hq, hp, hT⟩
    · rw [hp]
      exact ⟨⟨v, hv, hF.root, hF.areas, hT, hF.handed⟩, by simp⟩
    · rw [hp]
      exact ⟨⟨v, hv, hF.root, hF.areas, hT, hF.handed⟩, by simp⟩
    · rw [hp]
      exact ⟨⟨_, hv.settle hq status, hF.root, hF.areas, hT, hF.handed⟩, by simp⟩

theorem Accounted.drained {σ : Setup} (hstatus : ∀ st, σ.status st)
    (hc : Accounted σ areas c) (es : List CqEvent) :
    ∃ x r, c.exec.drainConnections es = .ok (x, r) ∧ (r = .ok () →
      (∀ pt idx, ¬ ({ c with exec := x } : Child).SlotHolds pt idx kMagicInPrefetch) ∧
      Frees (dropTable x.heap c.descriptor.pageTable)
        (fun page => page ∈ x.issued ∧ page ∉ c.handed.map Prod.snd)) := by
  obtain ⟨v, hv, hF⟩ := hc
  have hes : Arriving σ.status es := fun _ _ st _ => hstatus st
  obtain ⟨x, r, v', hdrain, hrun, hT, hend⟩ := hF.exec.drainConnections hv hes
  refine ⟨x, r, hdrain, fun hr => ?_⟩
  have hF' : Follows σ areas { c with exec := x } v' :=
    hF.withExec hT hrun.handed_of_settles
  exact hF'.frees_dropTable (hv.run hrun) (hend hr)

/-- For every run of a child built with prefetch, in which faults, completions
and polls come in any order: the pending entries are distinct and are exactly
the marked slots; every page allocated for a prefetch is referred to exactly
once, and is handed out at most once; no action halts, and a poll never meets
an empty queue; and after a successful drain no slot is marked and dropping the
table frees each page that was not handed out once. -/
theorem prefetched_pages_accounted (hf : f.prefetch = true) {c₀ : Child} (h₀ : Resumed c₀)
    (actions : List ChildAction)
    (hwork : (childMachine f alloc).Always (FaultsWork alloc) c₀ actions) :
    let c := (childMachine f alloc).run c₀ actions
    (c.pendingSlots.Nodup ∧
      ∀ pt idx, (pt, idx) ∈ c.pendingSlots ↔ c.SlotHolds pt idx kMagicInPrefetch) ∧
    ((∀ page ∈ c.exec.issued, ∃! r, c.Refers page r) ∧ (c.handed.map Prod.snd).Nodup) ∧
    ((∀ o ∈ (childMachine f alloc).outputs c₀ actions, ∀ h, o ≠ some (.halted h)) ∧
      ∀ e, (c.exec.poll e).2 ≠ .error .panicked) ∧
    ∀ es, ∃ x r, c.exec.drainConnections es = .ok (x, r) ∧ (r = .ok () →
      (∀ pt idx, ¬ ({ c with exec := x } : Child).SlotHolds pt idx kMagicInPrefetch) ∧
      Frees (dropTable x.heap c.descriptor.pageTable)
        (fun page => page ∈ x.issued ∧ page ∉ c.handed.map Prod.snd)) := by
  intro c
  let σ : Setup := c₀.setup alloc (fun _ => True) trivial
  have hplain : ∀ _ : ℕ, ¬ Holder.nobody.Prefetched := fun _ h => h
  have hstatus : ∀ st, σ.status st := fun _ => trivial
  have hinit : Accounted σ c₀.descriptor.vma c₀ :=
    ⟨_, h₀.inv hplain (fun _ hp => absurd rfl hp),
      h₀.follows alloc trivial hplain (fun _ _ _ => rfl)⟩
  have hstep : ∀ s a, Accounted σ c₀.descriptor.vma s → FaultsWork alloc s a → _ :=
    fun s a hs ha => Accounted.step hstatus hf hs ha
  have hc : Accounted σ c₀.descriptor.vma c :=
    Machine.invariant _ (fun s a hs ha => (hstep s a hs ha).1) hinit hwork
  obtain ⟨v, hv, hF⟩ := id hc
  refine ⟨hF.pendingSlots_spec hv, ⟨fun page => hF.existsUnique_refers hv, ?_⟩, ⟨?_, ?_⟩,
    hc.drained hstatus⟩
  · rw [hF.handed]
    exact hv.handedNodup
  · exact Machine.outputs_of_invariant _ (fun o => ∀ h, o ≠ some (.halted h)) hstep hinit hwork
  · intro e
    rcases hF.exec.poll_cases hv (e := e) (fun st _ => hstatus st) with
      ⟨x, err, -, hp, -⟩ | ⟨x, -, hp, -⟩ | ⟨x, fetch, rest, status, -, -, hp, -⟩
    · simp [hp]
    · simp [hp]
    · simp [hp]

end Runs

/-! ## A run -/

/-- An allocator for as many pages as there are aligned addresses. -/
def sampleAlloc : PageAllocator where
  page n := 8 * (n + 1)
  capacity := 2 ^ 61 - 1
  injective _ _ _ _ h := Nat.succ.inj (Nat.eq_of_mul_eq_mul_left (Nat.succ_pos 7) h)
  aligned n _ := Nat.mul_mod_right 8 (n + 1)
  ne_null n _ := by omega
  fits n hn := by omega

/-- A child whose parent has pages at two neighbouring addresses. -/
def sampleChild (areas : List VMADescriptor) : Child :=
  let s := tableMachine.run (RemotePageTable.new Heap.empty)
    [.map ⟨0x1000, by decide⟩ 0x5000, .map ⟨0x2000, by decide⟩ 0x6000]
  Child.resume s.1 ⟨default, s.2, areas, default⟩ ⟨0, 7, 1⟩

theorem resumed_sampleChild (areas : List VMADescriptor) : Resumed (sampleChild areas) :=
  resumed_of_calls (by decide) Heap.empty ⟨default, ⟨0, 0⟩, areas, default⟩ ⟨0, 7, 1⟩

/-- A fault whose own READ succeeds at once. -/
def sampleFault (addr : VirtAddr) : ChildAction :=
  .fault ⟨addr, 0x1000⟩ ⟨none, [(⟨[.success], none⟩, 10)], [⟨[], none⟩]⟩

/-- The second page is read ahead and then handed out. -/
theorem prefetched_pages_accounted_two_pages :
    let build := childMachine ⟨true, false, false⟩ sampleAlloc
    let actions := [sampleFault ⟨0x1000, by decide⟩, .complete .success, .poll ⟨[], none⟩,
      sampleFault ⟨0x2000, by decide⟩]
    build.outputs (sampleChild []) actions =
        [some (.installed (.remote 0x5000)), none, none, some (.installed (.remote 0x6000))] ∧
      (build.run (sampleChild []) actions).exec.issued = [16] ∧
      ∃! r, (build.run (sampleChild []) actions).Refers 16 r := by
  intro build actions
  have hissued : (build.run (sampleChild []) actions).exec.issued = [16] := by decide +kernel
  have hwork : build.Always (FaultsWork sampleAlloc) (sampleChild []) actions :=
    ⟨⟨by decide +kernel, rfl, by decide⟩, trivial, trivial,
      ⟨by decide +kernel, rfl, by decide⟩, trivial⟩
  refine ⟨by decide +kernel, hissued, ?_⟩
  exact (prefetched_pages_accounted rfl (resumed_sampleChild []) actions hwork).2.1.1 16
    (by rw [hissued]; exact List.mem_singleton_self 16)

end Mitosis.PageFault
