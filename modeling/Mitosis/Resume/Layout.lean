import Mathlib.Algebra.Order.BigOperators.Group.List
import Mitosis.KernWrappers.Task
import Mitosis.PageFault.Anonymous

/-!
# The layout of a forked process

A prepare goes through the areas of the parent and describes them; `apply_to` unmaps
everything that the child has and maps a region for each description.  The result is the
address space of the parent up to room for growth: whatever the child had before, each area
is where it was and allows what it allowed.

A child may be prepared in turn.  All its areas belong to the device then, so they are
described as areas of a file: from the second generation on nothing grows, and a page that
nobody touched is lost.
-/

namespace Mitosis.Resume

open Support Descriptors OsNetwork KernWrappers PageFault Prefetcher RemoteMapping
open RemotePaging (AccessInfo)

/-- The process that runs, as far as a fork replaces it. -/
structure Task where
  mm : MmStruct
  regs : RegDescriptor

/-- The loop of `apply_to` in a task, with the mark that has no bit. -/
def mapAll (k : Kernel) (eager : Bool) : List VMADescriptor → MmStruct → Outcome MmStruct
  | [], mm => .ok mm
  | v :: vs, mm => do
    let (vma, mm) ← KernWrappers.mapOneRegion k eager mm v vs.head?
    let (p, vma) ← Outcome.unwrap vma
    mapAll k eager vs
      (if contains v.flags vmAlloc then mm.setRawFlags p (vma.vmFlags ||| vmAlloc) else mm)

/-- `apply_to`: the areas of the process go first, and a failure afterwards leaves none.
There is no result if a freed area is read. -/
def applyTo (k : Kernel) (eager : Bool) (accessInfo : Option AccessInfo) (task : Task)
    (vma : List VMADescriptor) (regs : RegDescriptor) : Option (Outcome Task) := do
  let mm ← task.mm.unmapSelf k
  some do
    let _ ← Outcome.unwrap accessInfo
    let mm ← mapAll k eager vma mm
    .ok ⟨mm, regs⟩

/-- The parent is described, and the child becomes what is described. -/
def forkInto (k : Kernel) (eager : Bool) (accessInfo : Option AccessInfo) (parent child : Task) :
    Option (Outcome Task) := do
  let vma ← parent.mm.generateDescriptors
  applyTo k eager accessInfo child vma parent.regs

/-- A process is forked, its child is forked, and so on. -/
def descend (k : Kernel) (eager : Bool) (first : Task) :
    List (AccessInfo × Task) → Option (Outcome Task)
  | [] => some (.ok first)
  | (info, child) :: rest =>
    match forkInto k eager (some info) first child with
    | some (.ok t) => descend k eager t rest
    | r => r

/-! ## One fork -/

section Layout

variable {k : Kernel} {eager : Bool}

/-- The areas that the regions of all areas become. -/
def inheritedAreas (k : Kernel) (eager : Bool) : List VMADescriptor → List VmAreaStruct
  | [] => []
  | v :: vs => inherited k eager v vs.head? :: inheritedAreas k eager vs

theorem Fits.toNat_vmEnd_inherited {v : VMADescriptor} {next : Option VMADescriptor}
    (h : Fits v next) : (inherited k eager v next).vmEnd.toNat =
      v.getStart.toNat + (regionOf v next).len.toNat :=
  (UInt64.toNat_add _ _).trans (Nat.mod_eq_of_lt h.end_lt)

theorem Fits.vmEnd_inherited_le {v w : VMADescriptor} {next : Option VMADescriptor}
    (h : Fits v next) (hw : next = some w) : (inherited k eager v next).vmEnd ≤ w.getStart := by
  rw [UInt64.le_iff_toNat_le, h.toNat_vmEnd_inherited]
  exact h.end_le hw

theorem setRawFlags_vmAlloc {mm : MmStruct} {l : List (ℕ × VmAreaStruct)}
    {z : ℕ × VmAreaStruct} (h : mm.areas = l ++ [z]) :
    (mm.setRawFlags z.1 (z.2.vmFlags ||| vmAlloc)).areas = l ++ [z] := by
  rw [areas_setRawFlags_last h, vmAlloc, UInt64.or_zero]

theorem mapAll_eq {vmas : List VMADescriptor} (hsorted : SortedAreas vmas)
    (hpaged : ∀ v ∈ vmas, Paged v) (mm : MmStruct)
    (hbehind : ∀ v, vmas.head? = some v → ∀ z ∈ mm.areas, z.2.vmEnd ≤ v.getStart) :
    ∃ mm', mapAll k eager vmas mm = .ok mm' ∧
      mm'.areas.map Prod.snd = mm.areas.map Prod.snd ++ inheritedAreas k eager vmas := by
  induction vmas generalizing mm with
  | nil => exact ⟨mm, rfl, (List.append_nil _).symm⟩
  | cons v vs ih =>
    have hfits := hsorted.fits
    have hnext : ∀ w, vs.head? = some w → w.getStart < w.getEnd ∧ Paged w := fun w hw =>
      ⟨hsorted.tail.nonempty w (List.mem_of_mem_head? hw),
        hpaged w (List.mem_cons_of_mem v (List.mem_of_mem_head? hw))⟩
    obtain ⟨mapped, hmap, hareas⟩ := mapOneRegion_behind k eager hfits
      (hpaged v List.mem_cons_self) hnext (hbehind v rfl)
    rw [mapAll, hmap]
    simp only [Outcome.ok_bind, Outcome.unwrap_some]
    -- the mark changes nothing
    have htuned : (if contains v.flags vmAlloc = true then mapped.setRawFlags (k.alloc mm)
        ((inherited k eager v vs.head?).vmFlags ||| vmAlloc) else mapped).areas =
          mm.areas ++ [(k.alloc mm, inherited k eager v vs.head?)] := by
      split
      · exact setRawFlags_vmAlloc hareas
      · exact hareas
    generalize (if contains v.flags vmAlloc = true then mapped.setRawFlags (k.alloc mm)
      ((inherited k eager v vs.head?).vmFlags ||| vmAlloc) else mapped) = tuned at htuned ⊢
    have hbehind' : ∀ w, vs.head? = some w → ∀ z ∈ tuned.areas, z.2.vmEnd ≤ w.getStart := by
      intro w hw
      rw [htuned, List.forall_mem_append, List.forall_mem_singleton]
      refine ⟨fun z hz => ?_, hfits.vmEnd_inherited_le hw⟩
      have hstart := UInt64.le_trans (hbehind v rfl z hz) (UInt64.le_of_lt hfits.nonempty)
      exact UInt64.le_trans hstart (hfits.before w hw)
    obtain ⟨mm', hrest, hareas'⟩ := ih hsorted.tail
      (fun w hw => hpaged w (List.mem_cons_of_mem v hw)) tuned hbehind'
    refine ⟨mm', hrest, ?_⟩
    rw [hareas', htuned, List.map_append, List.append_assoc]
    rfl

theorem sortedAreas_descriptors (mm : MmStruct) :
    SortedAreas (mm.areas.map fun z => z.2.generateDescriptor) where
  nonempty := List.forall_mem_map.mpr mm.nonempty
  sorted := List.pairwise_map.mpr mm.sorted

theorem paged_descriptors (mm : MmStruct) :
    ∀ v ∈ mm.areas.map fun z => z.2.generateDescriptor, Paged v :=
  List.forall_mem_map.mpr fun z hz => ⟨(mm.aligned z hz).1, (mm.aligned z hz).2, mm.user z hz⟩

theorem forkInto_eq (k : Kernel) (eager : Bool) (info : AccessInfo) (parent child : Task) :
    ∃ t, forkInto k eager (some info) parent child = some (.ok t) ∧ t.regs = parent.regs ∧
      t.mm.areas.map Prod.snd =
        inheritedAreas k eager (parent.mm.areas.map fun z => z.2.generateDescriptor) := by
  obtain ⟨mm, hunmap, hempty⟩ := child.mm.unmapSelf_eq k
  obtain ⟨mm', hmap, hareas⟩ := mapAll_eq (k := k) (sortedAreas_descriptors parent.mm)
    (paged_descriptors parent.mm) mm (by simp [hempty])
  rw [hempty, List.map_nil, List.nil_append] at hareas
  refine ⟨⟨mm', parent.regs⟩, ?_, rfl, hareas⟩
  rw [forkInto, parent.mm.generateDescriptors_eq, Option.bind_eq_bind, Option.bind_some, applyTo,
    hunmap, Option.bind_eq_bind, Option.bind_some, Outcome.unwrap_some, Outcome.ok_bind, hmap]
  rfl

/-! ## Any number of forks -/

theorem inherited_inherited (v : VMADescriptor) (next next' : Option VMADescriptor) :
    inherited k eager (inherited k eager v next).generateDescriptor next' =
      inherited k eager v next := by
  have hrights := rights_inheritedFlags k eager v
  simp only [rights, Prod.mk.injEq] at hrights
  obtain ⟨hread, hwrite, hexec, hstack⟩ := hrights
  have hstack' : (inherited k eager v next).generateDescriptor.isStack = v.isStack := hstack
  have hprot : (inherited k eager v next).generateDescriptor.getMmapFlags = v.getMmapFlags := by
    rw [VMADescriptor.getMmapFlags, VMADescriptor.getMmapFlags, hstack']
    change (if contains (inheritedFlags k eager v) vmRead = true then _ else _) |||
      (if contains (inheritedFlags k eager v) vmWrite = true then _ else _) |||
      (if contains (inheritedFlags k eager v) vmExec = true then _ else _) ||| _ = _
    rw [hread, hwrite, hexec]
  have hlen : (regionOf (inherited k eager v next).generateDescriptor next').len =
      (regionOf v next).len := by
    change v.getStart + (regionOf v next).len - v.getStart = _
    rw [UInt64.add_comm, UInt64.add_sub_cancel]
  have hflags : inheritedFlags k eager (inherited k eager v next).generateDescriptor =
      inheritedFlags k eager v := by
    rw [inheritedFlags, inheritedFlags, hprot, hstack']
  rw [inherited, hlen, hflags, hprot]
  rfl

theorem inheritedAreas_inheritedAreas (vmas : List VMADescriptor) :
    inheritedAreas k eager ((inheritedAreas k eager vmas).map VmAreaStruct.generateDescriptor) =
      inheritedAreas k eager vmas := by
  induction vmas with
  | nil => rfl
  | cons v vs ih => rw [inheritedAreas, List.map_cons, inheritedAreas, inherited_inherited, ih]

/-- All descendants have the areas of the first child, and the registers of the parent. -/
theorem descend_eq (k : Kernel) (eager : Bool) (first : Task)
    (children : List (AccessInfo × Task)) (hne : children ≠ []) :
    ∃ t, descend k eager first children = some (.ok t) ∧ t.regs = first.regs ∧
      t.mm.areas.map Prod.snd =
        inheritedAreas k eager (first.mm.areas.map fun z => z.2.generateDescriptor) := by
  induction children generalizing first with
  | nil => exact absurd rfl hne
  | cons c rest ih =>
    obtain ⟨info, child⟩ := c
    obtain ⟨t, hfork, hregs, hareas⟩ := forkInto_eq k eager info first child
    rw [descend, hfork]
    dsimp only
    by_cases hrest : rest = []
    · rw [hrest]
      exact ⟨t, rfl, hregs, hareas⟩
    · obtain ⟨t', hdescend, hregs', hareas'⟩ := ih t hrest
      refine ⟨t', hdescend, hregs'.trans hregs, ?_⟩
      have hcomp : (t.mm.areas.map fun z => z.2.generateDescriptor) =
          (t.mm.areas.map Prod.snd).map VmAreaStruct.generateDescriptor := by
        rw [List.map_map]
        rfl
      rw [hareas', hcomp, hareas, inheritedAreas_inheritedAreas]

theorem getElem?_inheritedAreas (vmas : List VMADescriptor) (i : ℕ) :
    (inheritedAreas k eager vmas)[i]? = vmas[i]?.map fun v => inherited k eager v vmas[i + 1]? := by
  induction vmas generalizing i with
  | nil => rfl
  | cons v vs ih =>
    cases i with
    | zero =>
      rw [inheritedAreas, List.getElem?_cons_zero, List.getElem?_cons_zero,
        List.getElem?_cons_succ, List.head?_eq_getElem?]
      rfl
    | succ i =>
      rw [inheritedAreas, List.getElem?_cons_succ, List.getElem?_cons_succ,
        List.getElem?_cons_succ, ih]

theorem length_inheritedAreas (vmas : List VMADescriptor) :
    (inheritedAreas k eager vmas).length = vmas.length := by
  induction vmas with
  | nil => rfl
  | cons v vs ih => rw [inheritedAreas, List.length_cons, List.length_cons, ih]

end Layout

/-- The area of a descendant for an area of the process: it is where that was, with room up
to the next one if that could grow, and allows the same. -/
structure InheritedFrom (a : VmAreaStruct) (next : Option VmAreaStruct) (a' : VmAreaStruct) :
    Prop where
  start : a'.vmStart = a.vmStart
  covers : a.vmEnd ≤ a'.vmEnd
  before : ∀ b, next = some b → a'.vmEnd ≤ b.vmStart
  exact : a.isAnonymous = false ∨ next = none → a'.vmEnd = a.vmEnd
  allows : rights a'.vmFlags = rights a.vmFlags
  ofDevice : a'.vmOps = true

theorem inheritedFrom {k : Kernel} {eager : Bool} {a : VmAreaStruct} {next : Option VmAreaStruct}
    (h : Fits a.generateDescriptor (next.map VmAreaStruct.generateDescriptor)) :
    InheritedFrom a next (inherited k eager a.generateDescriptor
      (next.map VmAreaStruct.generateDescriptor)) where
  start := rfl
  covers := by
    have hlen := h.toNat_len
    rw [UInt64.le_iff_toNat_le, h.toNat_vmEnd_inherited, hlen]
    exact Nat.le_add_right _ _
  before b hb := h.vmEnd_inherited_le (by rw [hb]; rfl)
  exact hfixed := by
    have hlen := h.toNat_len
    apply UInt64.toNat_inj.mp
    rw [h.toNat_vmEnd_inherited, hlen]
    rcases hfixed with hfile | hlast
    · have hfile : a.generateDescriptor.isAnonymous = false := hfile
      rw [hfile]
      rfl
    · rw [hlast]
      split <;> rfl
  allows := rights_inheritedFlags k eager a.generateDescriptor
  ofDevice := rfl

theorem exists_inheritedFrom {k : Kernel} {eager : Bool} {first mm : MmStruct}
    (hareas : mm.areas.map Prod.snd =
      inheritedAreas k eager (first.areas.map fun z => z.2.generateDescriptor))
    {i : ℕ} {z : ℕ × VmAreaStruct} (hz : first.areas[i]? = some z) :
    ∃ z', mm.areas[i]? = some z' ∧ InheritedFrom z.2 (first.areas[i + 1]?.map Prod.snd) z'.2 := by
  have hdescribed : (first.areas.map fun z => z.2.generateDescriptor)[i]? =
      some z.2.generateDescriptor := by
    rw [List.getElem?_map, hz, Option.map_some]
  have hnext : (first.areas.map fun z => z.2.generateDescriptor)[i + 1]? =
      (first.areas[i + 1]?.map Prod.snd).map VmAreaStruct.generateDescriptor := by
    rw [List.getElem?_map, Option.map_map]
    rfl
  have hfits := (sortedAreas_descriptors first).fits_getElem hdescribed
  have harea : (mm.areas.map Prod.snd)[i]? = _ := congrArg (·[i]?) hareas
  rw [getElem?_inheritedAreas, hdescribed, Option.map_some, List.getElem?_map,
    Option.map_eq_some_iff] at harea
  obtain ⟨z', hz', harea⟩ := harea
  rw [hnext] at hfits harea
  exact ⟨z', hz', harea ▸ inheritedFrom hfits⟩

/-- A process is forked, the child is forked, and so on, each before it maps anything of its own:
no freed area is read, and whatever the children had before, the last of them has an area for
each area of the process, where that was, that allows what that allows, and it has the registers
of the process.  Only areas that are anonymous and not the last have room to grow. -/
theorem descendants_keep_layout (k : Kernel) (eager : Bool) (first : Task)
    (children : List (AccessInfo × Task)) (hne : children ≠ []) :
    ∃ t, descend k eager first children = some (.ok t) ∧ t.regs = first.regs ∧
      t.mm.areas.length = first.mm.areas.length ∧
      ∀ (i : ℕ) (z : ℕ × VmAreaStruct), first.mm.areas[i]? = some z →
        ∃ z', t.mm.areas[i]? = some z' ∧
          InheritedFrom z.2 (first.mm.areas[i + 1]?.map Prod.snd) z'.2 := by
  obtain ⟨t, hdescend, hregs, hareas⟩ := descend_eq k eager first children hne
  refine ⟨t, hdescend, hregs, ?_, fun i z hz => exists_inheritedFrom hareas hz⟩
  have hlength := congrArg List.length hareas
  rwa [length_inheritedAreas, List.length_map, List.length_map] at hlength

/-- A kernel that numbers the structures of areas. -/
def sampleKernel : Kernel :=
  .simple (fun mm => (mm.areas.map Prod.fst).sum + 1)
    (fun _ hmem => Nat.not_succ_le_self _ (List.single_le_sum (fun _ _ => Nat.zero_le _) _ hmem))
    id

def sampleTask : Task where
  mm :=
    { areas := [(1, ⟨0x400000, 0x401000, 0x5, 0x25, true⟩),
        (2, ⟨0x600000, 0x602000, 0x3, 0x27, false⟩),
        (3, ⟨0x7ffff000, 0x80000000, 0x103, 0x27, false⟩)]
      distinct := by decide
      nonempty := by decide
      sorted := by decide
      aligned := by decide
      user := by decide }
  regs := default

theorem descendants_keep_layout_twice :
    ∃ t, descend sampleKernel false sampleTask [(⟨0, 0, 0⟩, sampleTask), (⟨0, 0, 0⟩, sampleTask)] =
      some (.ok t) ∧ t.mm.areas.length = 3 := by
  obtain ⟨t, ht, -, hlength, -⟩ := descendants_keep_layout sampleKernel false sampleTask
    [(⟨0, 0, 0⟩, sampleTask), (⟨0, 0, 0⟩, sampleTask)] (List.cons_ne_nil _ _)
  exact ⟨t, ht, hlength⟩

/-! ## Pages that nobody touched -/

section Untouched

variable {f : Features} {alloc : PageAllocator} {c c' : Child} {env : FaultEnv}

theorem vma_faultWithoutPage (vmaStart : UInt64) :
    (c.faultWithoutPage alloc vmaStart).1.descriptor.vma = c.descriptor.vma := by
  unfold Child.faultWithoutPage
  split <;> rfl

theorem vma_cachedPage (w : PhysAddr) :
    (c.cachedPage alloc w).1.descriptor.vma = c.descriptor.vma := by
  unfold Child.cachedPage
  dsimp only
  split <;> rfl

theorem vma_awaitRead {x : Executor} {own : ReadRequest} {page : Option ℕ}
    (h : c.awaitRead x own env = .ok (c', page)) : c'.descriptor.vma = c.descriptor.vma := by
  unfold Child.awaitRead at h
  split at h
  · cases h
  · cases h
    rfl
  · cases h
    rfl

theorem vma_readPage {addr : VirtAddr} {page : Option ℕ}
    (h : c.readPage f alloc addr env = .ok (c', page)) : c'.descriptor.vma = c.descriptor.vma := by
  unfold Child.readPage at h
  split at h
  · unfold Child.readRemotePagePrefetch at h
    split at h
    · cases h
      rfl
    · dsimp only at h
      split at h
      · obtain ⟨x, -, -, rfl, -⟩ := Child.takePrefetched_eq_ok h
        rfl
      · simp only [Executor.allocPage, bind, Except.bind] at h
        split at h
        · cases h
        · split at h
          · cases h
          · split at h
            · cases h
            · exact vma_awaitRead h
  · unfold Child.readRemotePage at h
    split at h
    · cases h
      rfl
    · dsimp only at h
      split at h
      · cases h
      · cases h
        rfl
      · cases h
        rfl

theorem vma_handlePageFault {fault : Fault} {r : FaultResult}
    (h : c.handlePageFault f alloc fault env = .ok (c', r)) :
    c'.descriptor.vma = c.descriptor.vma := by
  unfold Child.handlePageFault at h
  split at h
  · obtain rfl : _ = c' := congrArg Prod.fst (Except.ok.inj h)
    exact vma_faultWithoutPage fault.vmaStart
  · split at h
    · obtain rfl : _ = c' := congrArg Prod.fst (Except.ok.inj h)
      exact vma_cachedPage _
    · obtain ⟨⟨c₁, page⟩, hread, h⟩ := Outcome.bind_eq_ok.mp h
      rw [← vma_readPage hread]
      cases page with
      | none =>
        obtain rfl : _ = c' := congrArg Prod.fst (Except.ok.inj h)
        exact vma_faultWithoutPage fault.vmaStart
      | some page =>
        cases h
        split <;> rfl

theorem vma_step (c : Child) (a : ChildAction) :
    ((childMachine f alloc).step c a).1.descriptor.vma = c.descriptor.vma := by
  cases a with
  | fault fault env =>
    dsimp only [childMachine, Child.faultStep]
    split
    · next hfault => exact vma_handlePageFault hfault
    · rfl
  | complete status => rfl
  | poll e =>
    dsimp only [childMachine, Child.pollOnce]
    split <;> rfl

theorem report_of_unmapped {fault : Fault} (hunmapped : c.lookupPgTable fault.address = none) :
    ((childMachine f alloc).step c (.fault fault env)).2 =
      some (if c.anonymous fault.vmaStart then .installed .unfilled else .sigsegv) := by
  dsimp only [childMachine, Child.faultStep]
  cases hanon : c.anonymous fault.vmaStart with
  | true =>
    obtain ⟨c', hfault, hcontent⟩ :=
      Child.handlePageFault_of_anonymous f alloc env hunmapped hanon
    rw [hfault]
    exact congrArg (some ∘ FaultReport.installed) hcontent
  | false =>
    rw [Child.handlePageFault, hunmapped]
    dsimp only [Child.faultWithoutPage]
    rw [hanon]
    rfl

/-- In every state of a run, this is what a fault shows in the area that starts there, if
the table does not have the address. -/
def UntouchedShow (f : Features) (alloc : PageAllocator) (start : UInt64) (r : FaultReport) :
    Child → List ChildAction → Prop :=
  (childMachine f alloc).Always fun c a => ∀ fault env, a = .fault fault env →
    fault.vmaStart = start → c.lookupPgTable fault.address = none →
      ((childMachine f alloc).step c a).2 = some r

theorem untouchedShow (f : Features) (alloc : PageAllocator) (c₀ : Child) (start : UInt64)
    (actions : List ChildAction) :
    UntouchedShow f alloc start (if c₀.anonymous start then .installed .unfilled else .sigsegv)
      c₀ actions := by
  refine Machine.always_of_invariant (fun c => c.descriptor.vma = c₀.descriptor.vma)
    (fun c a hc _ => ⟨?_, ?_⟩) rfl (Machine.always_of_forall (fun _ _ => trivial) _ _)
  · exact (vma_step c a).trans hc
  · rintro fault env rfl hstart hunmapped
    rw [report_of_unmapped hunmapped, hstart, Child.anonymous, hc]
    rfl

theorem anonymous_eq_of_area {mm : MmStruct} {c : Child}
    (hc : mm.generateDescriptors = some c.descriptor.vma) {z : ℕ × VmAreaStruct}
    (hz : z ∈ mm.areas) : c.anonymous z.2.vmStart = z.2.isAnonymous := by
  rw [mm.generateDescriptors_eq, Option.some.injEq] at hc
  obtain ⟨i, hi⟩ := List.mem_iff_getElem?.mp hz
  exact (sortedAreas_descriptors mm).anonymous_eq (i := i) (v := z.2.generateDescriptor)
    (by rw [List.getElem?_map, hi, Option.map_some]) hc.symm

end Untouched

/-- A page of an anonymous area that nobody touched, so that no table has it: every child of
the process gets a new page for it, with whatever its frame held, but a child of a descendant
is killed, because the areas of a descendant belong to the device. -/
theorem untouched_pages_of_descendants (k : Kernel) (eager : Bool) (first t : Task)
    (children : List (AccessInfo × Task)) (hne : children ≠ [])
    (ht : descend k eager first children = some (.ok t)) (z : ℕ × VmAreaStruct)
    (hz : z ∈ first.mm.areas) (hanonymous : z.2.isAnonymous = true) (f : Features)
    (alloc : PageAllocator) (actions : List ChildAction) :
    (∀ c : Child, first.mm.generateDescriptors = some c.descriptor.vma →
      UntouchedShow f alloc z.2.vmStart (.installed .unfilled) c actions) ∧
    ∀ c : Child, t.mm.generateDescriptors = some c.descriptor.vma →
      UntouchedShow f alloc z.2.vmStart .sigsegv c actions := by
  constructor
  · intro c hc
    have hshow := untouchedShow f alloc c z.2.vmStart actions
    rwa [anonymous_eq_of_area hc hz, hanonymous] at hshow
  · intro c hc
    obtain ⟨i, hi⟩ := List.mem_iff_getElem?.mp hz
    obtain ⟨t', ht', -, hareas⟩ := descend_eq k eager first children hne
    rw [ht, Option.some.injEq, Except.ok.injEq] at ht'
    rw [← ht'] at hareas
    obtain ⟨z', hz', hfrom⟩ := exists_inheritedFrom hareas hi
    have hdevice : c.anonymous z.2.vmStart = false := by
      rw [← hfrom.start, anonymous_eq_of_area hc (List.mem_of_getElem? hz'),
        VmAreaStruct.isAnonymous, hfrom.ofDevice]
      rfl
    have hshow := untouchedShow f alloc c z.2.vmStart actions
    rwa [hdevice] at hshow

/-- The heap of a process that was forked and prepared again. -/
theorem untouched_pages_of_descendants_heap :
    ∃ t firstVmas vmas,
      descend sampleKernel false sampleTask [(⟨0, 0, 0⟩, sampleTask)] = some (.ok t) ∧
      sampleTask.mm.generateDescriptors = some firstVmas ∧
      t.mm.generateDescriptors = some vmas ∧
      UntouchedShow ⟨false, false, false⟩ sampleAlloc 0x600000 (.installed .unfilled)
        (sampleChild firstVmas) [.fault ⟨⟨0x601000, by decide⟩, 0x600000⟩ ⟨none, [], []⟩] ∧
      UntouchedShow ⟨false, false, false⟩ sampleAlloc 0x600000 .sigsegv (sampleChild vmas)
        [.fault ⟨⟨0x601000, by decide⟩, 0x600000⟩ ⟨none, [], []⟩] := by
  obtain ⟨t, ht, -⟩ := descend_eq sampleKernel false sampleTask [(⟨0, 0, 0⟩, sampleTask)]
    (List.cons_ne_nil _ _)
  have hfirst := sampleTask.mm.generateDescriptors_eq
  have hvmas := t.mm.generateDescriptors_eq
  have hshow := untouched_pages_of_descendants sampleKernel false sampleTask t
    [(⟨0, 0, 0⟩, sampleTask)] (List.cons_ne_nil _ _) ht
    (2, ⟨0x600000, 0x602000, 0x3, 0x27, false⟩) (by decide) rfl ⟨false, false, false⟩ sampleAlloc
    [.fault ⟨⟨0x601000, by decide⟩, 0x600000⟩ ⟨none, [], []⟩]
  exact ⟨t, _, _, ht, hfirst, hvmas, hshow.1 _ hfirst, hshow.2 _ hvmas⟩

end Mitosis.Resume
