import Mitosis.PageFault.Equivalence

/-!
# Faults on mapped pages

A fault on a mapped address should install a page with the content of the
remote page of that address, or raise a signal.  What can go wrong is the READ
that the fault posts itself: the handler treats its failure like an unmapped
address, and an anonymous area then gets a blank page; and a wait that returns
successfully has not always seen the completion of its own READ.  With prefetch it
can also be a READ ahead: the page of one that failed is handed out like any other.
-/

namespace Mitosis.PageFault

open Mitosis.Descriptors
open Mitosis.OsNetwork
open Mitosis.Prefetcher
open Mitosis.RemoteMapping
open Mitosis.Support (Machine)

/-- On a mapped address, a fault shows a signal or the content of the remote
page of that address. -/
def RemoteOrSignal (source : ℕ → Option PhysAddr) (c : Child) (fault : Fault)
    (report : FaultReport) : Prop :=
  ∀ w, c.lookupPgTable fault.address = some w →
    report = .sigsegv ∨
      ∃ raddr, source fault.address.pageKey = some raddr ∧ report = .installed (.remote raddr)

/-- The READ of a fault fills its page, or it fails in an area that is not
anonymous. -/
def ReadServes (f : Features) (alloc : PageAllocator) (c : Child) (fault : Fault)
    (env : FaultEnv) : Prop :=
  ∀ w, c.lookupPgTable fault.address = some w → f.reads w = true →
    c.readOutcome f alloc w env = some (.remote (PhysAddr.decode w)) ∨
      (c.readOutcome f alloc w env = none ∧ c.anonymous fault.vmaStart = false)

/-- The condition on the actions of a run.  There is memory, and the READ of a fault serves
it; with prefetch the driver takes that READ, polls of the prefetch connection do not fail,
all READs ahead succeed, and no slot of the page cache is read ahead. -/
def ActionServes (f : Features) (alloc : PageAllocator) (c : Child) : ChildAction → Prop
  | .fault fault env => EnvWorks f alloc c fault.address env ∧ ReadServes f alloc c fault env
  | .complete status => status = .success
  | .poll e => ∀ st ∈ e.arrivals, st = .success

/-- The faults of an action are served. -/
def FaultServed (f : Features) (alloc : PageAllocator) (source : ℕ → Option PhysAddr)
    (c : Child) : ChildAction → Prop
  | .fault fault env => RemoteOrSignal source c fault (c.faultStep f alloc fault env).2
  | .complete _ => True
  | .poll _ => True

section Runs

variable {f : Features} {alloc : PageAllocator} {σ : Setup} {areas : List VMADescriptor}
  {source : ℕ → Option PhysAddr} {c : Child} {v : SlotView} {fault : Fault} {env : FaultEnv}

/-- A fault in a working environment is served exactly if its READ serves it,
and then the view stays faithful. -/
theorem Shows.served_iff (hσ : ∀ st, σ.status st ↔ st = .success)
    (hS : Shows f σ areas source c v) (henv : EnvWorks f σ.alloc c fault.address env) :
    (RemoteOrSignal source c fault (c.faultStep f σ.alloc fault env).2 ↔
        ReadServes f σ.alloc c fault env) ∧
      (ReadServes f σ.alloc c fault env →
        ∃ v', Shows f σ areas source (c.faultStep f σ.alloc fault env).1 v') := by
  unfold RemoteOrSignal ReadServes
  rw [hS.follows.lookupPgTable_eq]
  rcases hS.fault_cases hσ henv with ⟨hw, c', v', hstep, hS', -⟩ |
    ⟨w, raddr, c', v', hw, hown, hsource, hstep, hS', -⟩ |
    ⟨w, c', hw, hown, hsource, hstep, hnext⟩
  · rw [hstep, hw]
    exact ⟨iff_of_true (by simp) (by simp), fun _ => ⟨v', hS'⟩⟩
  · rw [hstep, hw]
    refine ⟨iff_of_true ?_ ?_, fun _ => ⟨v', hS'⟩⟩
    · exact fun _ _ => Or.inr ⟨raddr, hsource, rfl⟩
    · rintro _ ⟨⟩ hreads
      rw [hown] at hreads
      cases hreads
  · rw [hstep, hw]
    simp only [Option.some.injEq, forall_eq', hown, forall_const, hsource]
    rcases c.readOutcome_cases f σ.alloc w env with hout | hout | hout
    · rw [hout] at hnext ⊢
      obtain ⟨v', hS', -⟩ := hnext (by simp)
      refine ⟨?_, fun _ => ⟨v', hS'⟩⟩
      simp only [Child.withoutPage]
      cases c.anonymous fault.vmaStart with
      | true => simp
      | false => simp
    · rw [hout]
      simp
    · rw [hout] at hnext ⊢
      obtain ⟨v', hS', -⟩ := hnext (by simp)
      exact ⟨by simp, fun _ => ⟨v', hS'⟩⟩

theorem Shows.step (hσ : ∀ st, σ.status st ↔ st = .success)
    (hc : ∃ v, Shows f σ areas source c v) {a : ChildAction}
    (ha : ActionServes f σ.alloc c a) :
    (∃ v, Shows f σ areas source ((childMachine f σ.alloc).step c a).1 v) ∧
      FaultServed f σ.alloc source c a := by
  obtain ⟨v, hS⟩ := hc
  cases a with
  | fault fault env =>
    obtain ⟨hiff, hnext⟩ := hS.served_iff hσ ha.1
    exact ⟨hnext ha.2, hiff.mpr ha.2⟩
  | complete status => exact ⟨⟨v, hS.complete ((hσ status).mpr ha)⟩, trivial⟩
  | poll e =>
    obtain ⟨-, v', hS', -⟩ := hS.pollOnce hσ ha
    exact ⟨⟨v', hS'⟩, trivial⟩

/-- For every build and every resumed child: in a run in which each READ of a
fault fills its page or fails outside the anonymous areas, and all the rest that a
fault relies on works, every fault on a mapped address installs the content of its
remote page or raises a signal.  After such a run the next fault, if the rest works
for it, does so if and only if it meets that condition, that is if its own READ does. -/
theorem mapped_fault_served_iff {c₀ : Child} (h₀ : Resumed c₀)
    (hcache : CacheHolds f alloc c₀ source) (actions : List ChildAction)
    (hok : (childMachine f alloc).Always (ActionServes f alloc) c₀ actions) :
    let c := (childMachine f alloc).run c₀ actions
    (childMachine f alloc).Always (FaultServed f alloc source) c₀ actions ∧
      ∀ fault env, EnvWorks f alloc c fault.address env →
        (RemoteOrSignal source c fault (c.faultStep f alloc fault env).2 ↔
          ActionServes f alloc c (.fault fault env)) := by
  intro c
  let σ : Setup := c₀.setup alloc (· = .success) rfl
  have hσ : ∀ st, σ.status st ↔ st = .success := fun _ => Iff.rfl
  have hinit : ∃ v, Shows f σ c₀.descriptor.vma source c₀ v := by
    obtain ⟨v, hS, -, -⟩ := h₀.shows hcache
    exact ⟨v, hS⟩
  have hstep : ∀ c a, (∃ v, Shows f σ c₀.descriptor.vma source c v) →
      ActionServes f alloc c a → _ :=
    fun c a hc ha => Shows.step hσ hc ha
  constructor
  · exact Machine.always_of_invariant _ hstep hinit hok
  · intro fault env henv
    have hc : ∃ v, Shows f σ c₀.descriptor.vma source c v :=
      Machine.invariant _ (fun c a hc ha => (hstep c a hc ha).1) hinit hok
    obtain ⟨v, hS⟩ := hc
    exact (hS.served_iff hσ henv).1.trans (and_iff_right henv).symm

end Runs

/-- An anonymous area that holds both pages of the sample child. -/
def sampleArea : VMADescriptor := ⟨(0x1000, 0x3000), 0, 0, true⟩

theorem actionServes_of_readsSucceed {f : Features} {alloc : PageAllocator} {c : Child}
    {a : ChildAction} (ha : ReadsSucceed f alloc c a) : ActionServes f alloc c a := by
  cases a with
  | fault fault env => exact ⟨ha.1, fun w hw hown => Or.inl (ha.2 w hw hown)⟩
  | complete status => exact ha
  | poll e => exact ha

/-- Both pages are served, the second one by a page that was read ahead. -/
theorem mapped_fault_served_iff_two_pages :
    let f : Features := ⟨true, false, false⟩
    let actions := [sampleFault ⟨0x1000, by decide⟩, sampleFault ⟨0x2000, by decide⟩]
    (childMachine f sampleAlloc).Always
      (FaultServed f sampleAlloc (sampleChild [sampleArea]).source)
      (sampleChild [sampleArea]) actions := by
  intro f actions
  refine (mapped_fault_served_iff (resumed_sampleChild [sampleArea])
    (cacheHolds_of_noCache rfl sampleAlloc _) actions ⟨?_, ?_, trivial⟩).1
  all_goals
    exact actionServes_of_readsSucceed
      (readsSucceed_fault rfl (by decide +kernel) rfl (by decide) (by decide +kernel))

/-- The READ of a fault times out: in an anonymous area both builds report
success with a page that nothing was read into.  With prefetch a READ that
completes with an error does the same in every area, and so does a READ ahead that
completes with an error, for the fault that gets its page. -/
theorem failed_read_installs_blank_page :
    let fault : Fault := ⟨⟨0x1000, by decide⟩, 0x1000⟩
    (sampleChild [sampleArea]).lookupPgTable fault.address = some 0x5000 ∧
      ((sampleChild [sampleArea]).faultStep ⟨false, false, false⟩ sampleAlloc fault
        ⟨none, [], []⟩).2 = .installed .unfilled ∧
      ((sampleChild [sampleArea]).faultStep ⟨true, false, false⟩ sampleAlloc fault
        ⟨none, [], []⟩).2 = .installed .unfilled ∧
      ((sampleChild []).faultStep ⟨true, false, false⟩ sampleAlloc fault
        ⟨none, [(⟨[.remAccessErr], none⟩, 10)], []⟩).2 = .installed .unfilled ∧
      (childMachine ⟨true, false, false⟩ sampleAlloc).outputs (sampleChild [])
          [sampleFault ⟨0x1000, by decide⟩, .complete .remAccessErr, .poll ⟨[], none⟩,
            sampleFault ⟨0x2000, by decide⟩] =
        [some (.installed (.remote 0x5000)), none, none, some (.installed .unfilled)] := by
  decide +kernel

end Mitosis.PageFault
