import Mathlib.Data.List.ReduceOption
import Mitosis.PageFault.Content
import Mitosis.PageFault.PrefetchRun

/-!
# The two builds of the fault handler

The plain handler leaves the table alone, so when all READs succeed a fault
always shows the remote page of its address.  The prefetching handler clears a
slot when it hands out the page that was read ahead for it.  A run of it shows
the same as the plain one exactly if no fault comes back to such a slot.  With the
page cache it may also read a slot ahead that leads to a page of the cache, and then
shows what lies at the address of that page on the other machine; the results here are
for runs in which it does not.
-/

namespace Mitosis.PageFault

open Mitosis.Descriptors
open Mitosis.OsNetwork
open Mitosis.Prefetcher
open Mitosis.RemoteMapping
open Mitosis.Support (Machine)

/-- The fault of an action. -/
def ChildAction.fault? : ChildAction → Option Fault
  | .fault x _ => some x
  | .complete _ => none
  | .poll _ => none

def faultsOf (actions : List ChildAction) : List Fault := actions.filterMap ChildAction.fault?

/-- All READs succeed, those of the faults and those on the prefetch
connection, and no slot of the page cache is read ahead. -/
def ReadsSucceed (f : Features) (alloc : PageAllocator) (c : Child) : ChildAction → Prop
  | .fault fault env => EnvWorks f alloc c fault.address env ∧
      ∀ w, c.lookupPgTable fault.address = some w → f.reads w = true →
        c.readOutcome f alloc w env = some (.remote (PhysAddr.decode w))
  | .complete status => status = .success
  | .poll e => ∀ st ∈ e.arrivals, st = .success

/-- A fault does not come back to a slot that was cleared when its page was
handed out. -/
def NotRevisited (f : Features) (c : Child) : ChildAction → Prop
  | .fault fault _ =>
    f.pageCache = false → fault.address.pageKey ∉ c.handed.map Prod.fst
  | .complete _ => True
  | .poll _ => True

theorem source_pageKey (c : Child) (addr : VirtAddr) :
    c.source addr.pageKey = (c.lookupPgTable addr).map PhysAddr.decode := by
  rw [Child.lookupPgTable, translate_eq]
  rfl

/-- What a fault should show: the remote page of its address if there is one. -/
def expectedReport (source : ℕ → Option PhysAddr) (c₀ : Child) (fault : Fault) :
    FaultReport :=
  match source fault.address.pageKey with
  | some raddr => .installed (.remote raddr)
  | none => c₀.withoutPage fault.vmaStart

/-- The slots without a word are those that never had one, and those whose page
was handed out. -/
structure Cleared (f : Features) (source : ℕ → Option PhysAddr) (v : SlotView) : Prop where
  words : ∀ addr : VirtAddr, v.word addr.pageKey = none ↔ source addr.pageKey = none ∨
    (f.pageCache = false ∧ addr.pageKey ∈ v.handed.map Prod.fst)
  handed : ∀ k ∈ v.handed.map Prod.fst, source k ≠ none
  plain : f.prefetch = false → v.handed = []

theorem Cleared.of_sameSlots {f : Features} {source : ℕ → Option PhysAddr}
    {v v' : SlotView} (h : Cleared f source v) (hsame : SameSlots v v') :
    Cleared f source v' where
  words addr := by rw [hsame.mapped, hsame.handed, h.words]
  handed := by
    rw [hsame.handed]
    exact h.handed
  plain hf := hsame.handed.trans (h.plain hf)

theorem Cleared.of_hand {f : Features} {source : ℕ → Option PhysAddr} {v v' : SlotView}
    (h : Cleared f source v) {slot page : ℕ} (hf : f.prefetch = true)
    (hsource : source slot ≠ none) (hhanded : v'.handed = v.handed ++ [(slot, page)])
    (hwords : ∀ k, v'.word k = none ↔
      v.word k = none ∨ (f.pageCache = false ∧ k = slot)) : Cleared f source v' where
  words addr := by
    rw [hwords, h.words, hhanded]
    simp only [List.map_append, List.map_cons, List.map_nil, List.mem_append,
      List.mem_singleton]
    tauto
  handed k hk := by
    rw [hhanded, List.map_append, List.mem_append] at hk
    rcases hk with hk | hk
    · exact h.handed k hk
    · rw [List.mem_singleton.mp hk]
      exact hsource
  plain hplain := by
    rw [hf] at hplain
    cases hplain

section Runs

variable {f : Features} {alloc : PageAllocator} {σ : Setup} {areas : List VMADescriptor}
  {source : ℕ → Option PhysAddr} {c : Child}

/-- What holds in every state of a run whose READs all succeed. -/
def Serving (f : Features) (σ : Setup) (areas : List VMADescriptor)
    (source : ℕ → Option PhysAddr) (c : Child) : Prop :=
  ∃ v, Shows f σ areas source c v ∧ Cleared f source v

theorem Serving.fault (c₀ : Child) (hσ : ∀ st, σ.status st ↔ st = .success)
    (hareas : c₀.descriptor.vma = areas) (hc : Serving f σ areas source c) {fault : Fault}
    {env : FaultEnv} (ha : ReadsSucceed f σ.alloc c (.fault fault env)) :
    Serving f σ areas source (c.faultStep f σ.alloc fault env).1 ∧
      ((c.faultStep f σ.alloc fault env).2 = expectedReport source c₀ fault ↔
        NotRevisited f c (.fault fault env)) := by
  obtain ⟨v, hS, hcleared⟩ := hc
  obtain ⟨henv, hreads⟩ := ha
  rw [hS.follows.lookupPgTable_eq] at hreads
  have hanon : c.withoutPage fault.vmaStart = c₀.withoutPage fault.vmaStart := by
    rw [Child.withoutPage, Child.withoutPage, hS.follows.anonymous_eq, Child.anonymous, hareas]
  have hmapped : ∀ {w}, v.word fault.address.pageKey = some w →
      NotRevisited f c (.fault fault env) := by
    intro w hw hcache hmem
    rw [hS.follows.handed] at hmem
    rw [(hcleared.words fault.address).mpr (Or.inr ⟨hcache, hmem⟩)] at hw
    cases hw
  rcases hS.fault_cases hσ henv with ⟨hw, c', v', hstep, hS', hsame⟩ |
    ⟨w, raddr, c', v', hw, -, hsource, hstep, hS', hslots⟩ |
    ⟨w, c', hw, hown, hsource, hstep, hnext⟩
  · rw [hstep]
    refine ⟨⟨v', hS', hcleared.of_sameSlots hsame⟩, ?_⟩
    simp only [NotRevisited, hS.follows.handed, hanon, expectedReport]
    cases hsource : source fault.address.pageKey with
    | none =>
      refine iff_of_true rfl fun _ hmem => hcleared.handed _ hmem hsource
    | some raddr =>
      -- the slot had a page, which was handed out
      rcases (hcleared.words fault.address).mp hw with hnone | ⟨hcache, hmem⟩
      · rw [hsource] at hnone
        cases hnone
      · refine iff_of_false ?_ fun h => h hcache hmem
        unfold Child.withoutPage
        split
        · simp
        · simp
  · rw [hstep]
    refine ⟨⟨v', hS', ?_⟩, iff_of_true ?_ (hmapped hw)⟩
    · rcases hslots with hsame | ⟨hf, ⟨page, hhanded⟩, hwords⟩
      · exact hcleared.of_sameSlots hsame
      · exact hcleared.of_hand hf (by simp [hsource]) hhanded hwords
    · rw [expectedReport, hsource]
  · have hout := hreads w hw hown
    rw [hout] at hstep hnext
    obtain ⟨v', hS', hsame⟩ := hnext (by simp)
    rw [hstep]
    refine ⟨⟨v', hS', hcleared.of_sameSlots hsame⟩, iff_of_true ?_ (hmapped hw)⟩
    rw [expectedReport, hsource]

theorem Serving.complete (hσ : ∀ st, σ.status st ↔ st = .success)
    (hc : Serving f σ areas source c) {status : WCStatus} (hst : status = .success) :
    Serving f σ areas source (c.complete status) := by
  obtain ⟨v, hS, hcleared⟩ := hc
  exact ⟨v, hS.complete ((hσ status).mpr hst), hcleared⟩

theorem Serving.pollOnce (hσ : ∀ st, σ.status st ↔ st = .success)
    (hc : Serving f σ areas source c) {e : CqEvent} (he : ∀ st ∈ e.arrivals, st = .success) :
    Serving f σ areas source (c.pollOnce e).1 ∧ (c.pollOnce e).2 = none := by
  obtain ⟨v, hS, hcleared⟩ := hc
  obtain ⟨hout, v', hS', hsame⟩ := hS.pollOnce hσ he
  exact ⟨⟨v', hS', hcleared.of_sameSlots hsame⟩, hout⟩

theorem Serving.step (hσ : ∀ st, σ.status st ↔ st = .success)
    (hc : Serving f σ areas source c) {a : ChildAction} (ha : ReadsSucceed f σ.alloc c a) :
    Serving f σ areas source ((childMachine f σ.alloc).step c a).1 := by
  cases a with
  | fault fault env => exact (hc.fault c hσ (hc.elim fun _ h => h.1.follows.areas) ha).1
  | complete status => exact hc.complete hσ ha
  | poll e => exact (hc.pollOnce hσ ha).1

/-- The faults of a run show what they should exactly if none of them comes
back to a cleared slot. -/
theorem reports_eq_iff (c₀ : Child) (hσ : ∀ st, σ.status st ↔ st = .success)
    (hareas : c₀.descriptor.vma = areas) (hc : Serving f σ areas source c)
    {actions : List ChildAction}
    (hok : (childMachine f σ.alloc).Always (ReadsSucceed f σ.alloc) c actions) :
    ((childMachine f σ.alloc).outputs c actions).reduceOption =
        (faultsOf actions).map (expectedReport source c₀) ↔
      (childMachine f σ.alloc).Always (NotRevisited f) c actions := by
  induction actions generalizing c with
  | nil => exact iff_of_true rfl trivial
  | cons a actions ih =>
    obtain ⟨ha, hrest⟩ := hok
    have hcons : (childMachine f σ.alloc).outputs c (a :: actions) =
        ((childMachine f σ.alloc).step c a).2 ::
          (childMachine f σ.alloc).outputs ((childMachine f σ.alloc).step c a).1 actions := rfl
    cases a with
    | fault fault env =>
      obtain ⟨hc', hreport⟩ := hc.fault c₀ hσ hareas ha
      have hstep : ((childMachine f σ.alloc).step c (.fault fault env)).2 =
          some (c.faultStep f σ.alloc fault env).2 := rfl
      have hfaults : faultsOf (.fault fault env :: actions) = fault :: faultsOf actions :=
        rfl
      rw [hcons, hstep, List.reduceOption_cons_of_some, hfaults, List.map_cons,
        List.cons_eq_cons]
      exact and_congr hreport (ih hc' hrest)
    | complete status =>
      have hstep : ((childMachine f σ.alloc).step c (.complete status)).2 = none := rfl
      rw [hcons, hstep, List.reduceOption_cons_of_none]
      exact (ih (hc.complete hσ ha) hrest).trans (iff_of_eq (true_and _)).symm
    | poll e =>
      obtain ⟨hc', hnone⟩ := hc.pollOnce hσ ha
      have hstep : ((childMachine f σ.alloc).step c (.poll e)).2 = none := hnone
      rw [hcons, hstep, List.reduceOption_cons_of_none]
      exact (ih hc' hrest).trans (iff_of_eq (true_and _)).symm

theorem Serving.notRevisited (hf : f.prefetch = false) (hc : Serving f σ areas source c)
    (a : ChildAction) : NotRevisited f c a := by
  obtain ⟨v, hS, hcleared⟩ := hc
  cases a with
  | fault fault env =>
    intro _ hmem
    rw [hS.follows.handed, hcleared.plain hf] at hmem
    cases hmem
  | complete status => trivial
  | poll e => trivial

theorem Resumed.serving {c₀ : Child} (h₀ : Resumed c₀) (hcache : CacheHolds f alloc c₀ source) :
    Serving f (c₀.setup alloc (· = .success) rfl) c₀.descriptor.vma source c₀ := by
  obtain ⟨v, hS, hwords, hhanded⟩ := h₀.shows hcache
  refine ⟨v, hS, fun addr => ?_, ?_, fun _ => hhanded⟩
  · simp [hwords, hhanded]
  · simp [hhanded]

end Runs

/-- A build with the `prefetch` feature and the same build without it. -/
def Features.plain (f : Features) : Features := { f with prefetch := false }

@[inherit_doc Features.plain]
def Features.prefetching (f : Features) : Features := { f with prefetch := true }

/-- For every resumed child and every sequence of faults, when all READs
succeed and no slot of the page cache is read ahead: the build with prefetch shows for
each fault what the build without it shows, if and only if no fault comes back to a page
that was handed out after it had been read ahead (with the page cache, such a page is in
the cache). -/
theorem prefetch_reports_eq_plain_iff (f : Features) {plainAlloc alloc : PageAllocator}
    {c₀ : Child} {source : ℕ → Option PhysAddr} (h₀ : Resumed c₀)
    (hplain : CacheHolds f.plain plainAlloc c₀ source)
    (hcache : CacheHolds f.prefetching alloc c₀ source)
    (plainRun prefetchRun : List ChildAction) (hfaults : faultsOf plainRun = faultsOf prefetchRun)
    (hplainReads : (childMachine f.plain plainAlloc).Always
      (ReadsSucceed f.plain plainAlloc) c₀ plainRun)
    (hreads : (childMachine f.prefetching alloc).Always
      (ReadsSucceed f.prefetching alloc) c₀ prefetchRun) :
    ((childMachine f.prefetching alloc).outputs c₀ prefetchRun).reduceOption =
        ((childMachine f.plain plainAlloc).outputs c₀ plainRun).reduceOption ↔
      (childMachine f.prefetching alloc).Always (NotRevisited f.prefetching) c₀ prefetchRun := by
  have hplainServing := h₀.serving hplain
  have hserving := h₀.serving hcache
  have hfresh : (childMachine f.plain plainAlloc).Always (NotRevisited f.plain) c₀ plainRun :=
    Machine.always_of_invariant _
      (fun c a hc ha => ⟨hc.step (fun _ => Iff.rfl) ha, hc.notRevisited rfl a⟩)
      hplainServing hplainReads
  have hexpected : ((childMachine f.plain plainAlloc).outputs c₀ plainRun).reduceOption =
      (faultsOf plainRun).map (expectedReport source c₀) :=
    (reports_eq_iff c₀ (fun _ => Iff.rfl) rfl hplainServing hplainReads).mpr hfresh
  rw [hexpected, hfaults]
  exact reports_eq_iff c₀ (fun _ => Iff.rfl) rfl hserving hreads

theorem readsSucceed_fault {f : Features} {alloc : PageAllocator} {c : Child} {fault : Fault}
    {env : FaultEnv} (hf : f.pageCache = false) (hmem : HasMemory alloc c)
    (hpost : env.postError = none)
    (hpolls : ∀ e ∈ env.prefetchPolls, e.pollError = none ∧ ∀ st ∈ e.arrivals, st = .success)
    (hread : ∀ w ∈ c.lookupPgTable fault.address, f.reads w = true →
      c.readOutcome f alloc w env = some (.remote (PhysAddr.decode w))) :
    ReadsSucceed f alloc c (.fault fault env) := by
  refine ⟨⟨hmem, fun _ => hpost, fun _ => hpolls, ?_⟩, hread⟩
  intro _ _ _ _ _ _ req _
  rw [Features.cached, hf, Bool.false_and]

/-- Two neighbouring pages that fault once each. -/
theorem prefetch_reports_eq_plain_iff_two_pages :
    let f : Features := ⟨true, false, false⟩
    let faults := [sampleFault ⟨0x1000, by decide⟩, sampleFault ⟨0x2000, by decide⟩]
    ((childMachine f.prefetching sampleAlloc).outputs (sampleChild []) faults).reduceOption =
      ((childMachine f.plain sampleAlloc).outputs (sampleChild []) faults).reduceOption := by
  intro f faults
  have hplainReads : (childMachine f.plain sampleAlloc).Always
      (ReadsSucceed f.plain sampleAlloc) (sampleChild []) faults :=
    ⟨readsSucceed_fault rfl (by decide +kernel) rfl (by decide) (by decide +kernel),
      readsSucceed_fault rfl (by decide +kernel) rfl (by decide) (by decide +kernel), trivial⟩
  have hreads : (childMachine f.prefetching sampleAlloc).Always
      (ReadsSucceed f.prefetching sampleAlloc) (sampleChild []) faults :=
    ⟨readsSucceed_fault rfl (by decide +kernel) rfl (by decide) (by decide +kernel),
      readsSucceed_fault rfl (by decide +kernel) rfl (by decide) (by decide +kernel), trivial⟩
  refine (prefetch_reports_eq_plain_iff f (resumed_sampleChild [])
    (cacheHolds_of_noCache rfl _ _) (cacheHolds_of_noCache rfl _ _) faults faults rfl
    hplainReads hreads).mpr ⟨?_, ?_, trivial⟩
  · exact fun _ => List.not_mem_nil
  · intro _
    decide +kernel

/-- The second page faults again after it was handed out: the plain build reads
it again, the prefetching build has cleared its slot.  With the page cache the builds differ
if a fault before the second page reads its cached slot ahead: the next fault on it gets
what the other machine has at the address of the cached page. -/
theorem page_lost_after_prefetch :
    let f : Features := ⟨true, false, false⟩
    let faults := [sampleFault ⟨0x1000, by decide⟩, sampleFault ⟨0x2000, by decide⟩,
      sampleFault ⟨0x2000, by decide⟩]
    (childMachine f.plain sampleAlloc).Always (ReadsSucceed f.plain sampleAlloc)
        (sampleChild []) faults ∧
      (childMachine f.prefetching sampleAlloc).Always (ReadsSucceed f.prefetching sampleAlloc)
        (sampleChild []) faults ∧
      ((childMachine f.plain sampleAlloc).outputs (sampleChild []) faults).reduceOption =
        [.installed (.remote 0x5000), .installed (.remote 0x6000),
          .installed (.remote 0x6000)] ∧
      ((childMachine f.prefetching sampleAlloc).outputs (sampleChild []) faults).reduceOption =
        [.installed (.remote 0x5000), .installed (.remote 0x6000), .sigsegv] ∧
      let cached : Features := ⟨true, true, false⟩
      let actions := [sampleFault ⟨0x2000, by decide⟩, sampleFault ⟨0x1000, by decide⟩,
        .complete .success, .poll ⟨[], none⟩, sampleFault ⟨0x2000, by decide⟩]
      ((childMachine cached.plain sampleAlloc).outputs (sampleChild []) actions).reduceOption =
          [.installed (.remote 0x6000), .installed (.remote 0x5000),
            .installed (.remote 0x6000)] ∧
        ((childMachine cached.prefetching sampleAlloc).outputs (sampleChild [])
            actions).reduceOption =
          [.installed (.remote 0x6000), .installed (.remote 0x5000), .installed (.remote 8)] := by
  intro f faults
  refine ⟨⟨?_, ?_, ?_, trivial⟩, ⟨?_, ?_, ?_, trivial⟩, by decide +kernel, by decide +kernel,
    by decide +kernel, by decide +kernel⟩
  all_goals
    exact readsSucceed_fault rfl (by decide +kernel) rfl (by decide) (by decide +kernel)

end Mitosis.PageFault
