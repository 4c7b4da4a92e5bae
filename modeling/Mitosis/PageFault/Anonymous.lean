import Mitosis.PageFault.PrefetchRun

/-!
# The pages of anonymous areas

An address of an anonymous area that the parent never touched is not in the page
table.  The handler allocates a page for it and installs it as it is.  What the
process finds there is decided by the flags of the allocation: without a request
for zeroes, it is what the frame held before.
-/

namespace Mitosis.PageFault

open Mitosis.Descriptors
open Mitosis.OsNetwork
open Mitosis.Prefetcher
open Mitosis.RemoteMapping

abbrev PageBytes := Fin 4096 → UInt8

/-- The flags of an allocation, by their names in the kernel. -/
inductive GfpFlag where
  | highmem
  | hardwall
  | reclaim
  | io
  | fs
  | zero
deriving DecidableEq, Repr

/-- `GFP_USER`. -/
def gfpUser : List GfpFlag := [.reclaim, .io, .fs, .hardwall]

/-- `GFP_HIGHUSER`. -/
def gfpHighuser : List GfpFlag := .highmem :: gfpUser

def pmemGfpHighuser : List GfpFlag := gfpHighuser

/-- The bytes of a page that was just allocated, given what its frame held. -/
def pmemAllocPage (gfpMask : List GfpFlag) (frame : PageBytes) : PageBytes :=
  if .zero ∈ gfpMask then fun _ => 0 else frame

theorem pmemAllocPage_highuser (frame : PageBytes) :
    pmemAllocPage pmemGfpHighuser frame = frame := rfl

namespace Child

/-- The bytes of a page of the child: as it was allocated, or as a READ has
filled it. -/
def pageBytes (c : Child) (before : ℕ → PageBytes) (remote : PhysAddr → PageBytes)
    (page : ℕ) : PageBytes :=
  match c.exec.contents page with
  | .unfilled => pmemAllocPage pmemGfpHighuser (before page)
  | .remote raddr => remote raddr

/-- An unmapped address of an anonymous area gets the next page of the
allocator, and nothing is written to it. -/
theorem handlePageFault_of_anonymous (f : Features) (alloc : PageAllocator) {c : Child}
    {fault : Fault} (env : FaultEnv) (hunmapped : c.lookupPgTable fault.address = none)
    (hanonymous : c.anonymous fault.vmaStart = true) :
    ∃ c', c.handlePageFault f alloc fault env =
        .ok (c', .installed (alloc.page c.exec.allocated)) ∧
      c'.exec.contents (alloc.page c.exec.allocated) = .unfilled := by
  rw [handlePageFault, hunmapped]
  dsimp only
  rw [faultWithoutPage, if_pos hanonymous]
  exact ⟨_, rfl, Function.update_self _ _ _⟩

end Child

/-- The page that a fault on an unmapped address of an anonymous area installs
holds zeroes if and only if its frame did, and it is the same in two runs if and
only if the frame was. -/
theorem anonymous_page_zero_iff (f : Features) (alloc : PageAllocator) (c : Child)
    (fault : Fault) (env : FaultEnv) (vd : VMADescriptor) (hvd : vd ∈ c.descriptor.vma)
    (hanonymous : vd.isAnonymous = true) (hstart : fault.vmaStart = vd.getStart)
    (hunmapped : c.lookupPgTable fault.address = none) :
    ∃ c' page, c.handlePageFault f alloc fault env = .ok (c', .installed page) ∧
      ∀ remote before,
        ((c'.pageBytes before remote page = fun _ => 0) ↔ before page = fun _ => 0) ∧
        ∀ before', c'.pageBytes before remote page = c'.pageBytes before' remote page ↔
          before page = before' page := by
  have hmatch : c.anonymous fault.vmaStart = true := by
    rw [Child.anonymous, List.any_eq_true]
    refine ⟨vd, hvd, ?_⟩
    rw [hanonymous, hstart, beq_self_eq_true]
    rfl
  obtain ⟨c', hfault, hcontent⟩ :=
    Child.handlePageFault_of_anonymous f alloc env hunmapped hmatch
  have hbytes : ∀ before remote, c'.pageBytes before remote (alloc.page c.exec.allocated) =
      before (alloc.page c.exec.allocated) := by
    intro before remote
    rw [Child.pageBytes, hcontent]
    exact pmemAllocPage_highuser _
  refine ⟨c', _, hfault, fun remote before => ⟨?_, fun before' => ?_⟩⟩
  · rw [hbytes]
  · rw [hbytes, hbytes]

/-- An anonymous area of three pages, of which the parent touched two. -/
def sampleHeapArea : VMADescriptor := ⟨(0x1000, 0x4000), 0, 0, true⟩

/-- With a free list of blank frames the third page is blank. -/
theorem anonymous_page_zero_iff_blank_frames :
    let fault : Fault := ⟨⟨0x3000, by decide⟩, 0x1000⟩
    ∃ c' page, (sampleChild [sampleHeapArea]).handlePageFault ⟨false, false, false⟩ sampleAlloc
        fault ⟨none, [], []⟩ = .ok (c', .installed page) ∧
      c'.pageBytes (fun _ _ => 0) (fun _ _ => 7) page = fun _ => 0 := by
  intro fault
  obtain ⟨c', page, hfault, hbytes⟩ := anonymous_page_zero_iff ⟨false, false, false⟩ sampleAlloc
    (sampleChild [sampleHeapArea]) fault ⟨none, [], []⟩ sampleHeapArea
    (by decide +kernel) rfl rfl (by decide +kernel)
  exact ⟨c', page, hfault, (hbytes _ _).1.mpr rfl⟩

/-- The bytes that somebody left in the frame show up in the child. -/
theorem anonymous_page_shows_frame :
    let fault : Fault := ⟨⟨0x3000, by decide⟩, 0x1000⟩
    let c := sampleChild [sampleHeapArea]
    let after := c.handlePageFault ⟨false, false, false⟩ sampleAlloc fault ⟨none, [], []⟩
    let shown := fun before => after.map fun r => (r.2, r.1.pageBytes before (fun _ _ => 0) 8 0)
    sampleHeapArea ∈ c.descriptor.vma ∧ sampleHeapArea.isAnonymous = true ∧
      c.lookupPgTable fault.address = none ∧
      shown (fun _ _ => 42) = .ok (.installed 8, 42) ∧
      shown (fun _ _ => 0) = .ok (.installed 8, 0) := by
  decide +kernel

end Mitosis.PageFault
