import Mitosis.PageFault.Faithful
import Mitosis.PageFault.Refinement

/-!
# Faults that keep the contents

A fault is served from the page cache, by a page that was read ahead, or by a READ
of its own.  Each way keeps the child in the state that a faithful view shows, and the
report of the fault is what the source of its slot holds, if the READ is successful.
-/

namespace Mitosis.PageFault

open Mitosis.Descriptors
open Mitosis.OsNetwork
open Mitosis.Prefetcher
open Mitosis.RemoteMapping
open Mitosis.RemotePaging

/-! ## How the READ of a fault ends -/

/-- The page cache serves this word. -/
def Features.cached (f : Features) (w : PhysAddr) : Bool := f.pageCache && PhysAddr.isCache w

/-- A fault on this word posts a READ of its own: neither the page cache nor a
page that was read ahead serves it. -/
def Features.reads (f : Features) (w : PhysAddr) : Bool :=
  !f.cached w && !(f.prefetch && PhysAddr.isPrefetch w)

/-- How the READ of a fault ends: what its page holds if the wait returns
successfully, nothing if it fails. -/
def Child.readOutcome (f : Features) (alloc : PageAllocator) (c : Child) (w : PhysAddr)
    (env : FaultEnv) : Option PageContent :=
  let page := alloc.page c.exec.allocated
  if f.prefetch then
    match c.waitRead (c.demandRead page w) env with
    | (qp, some (.ok wc)) => some (readContent (c.demandRead page w) wc qp)
    | _ => none
  else
    let call := c.readCall env page w
    match remoteRead f.useRc c.qp call with
    | (qp, some (.ok r)) => some (readContent (ownRead f.useRc c.qp call) (r, .success) qp)
    | _ => none

theorem readContent_cases (own : ReadRequest) (taken : WorkCompletion) (qp : QueuePair) :
    readContent own taken qp = .unfilled ∨ readContent own taken qp = .remote own.raddr := by
  unfold readContent
  split
  · exact Or.inr rfl
  · exact Or.inl rfl

theorem Child.readOutcome_cases (f : Features) (alloc : PageAllocator) (c : Child)
    (w : PhysAddr) (env : FaultEnv) :
    c.readOutcome f alloc w env = none ∨ c.readOutcome f alloc w env = some .unfilled ∨
      c.readOutcome f alloc w env = some (.remote (PhysAddr.decode w)) := by
  unfold Child.readOutcome
  dsimp only
  split
  · split
    · rcases readContent_cases (c.demandRead (alloc.page c.exec.allocated) w) _ _ with h | h
      · exact Or.inr (Or.inl (congrArg some h))
      · exact Or.inr (Or.inr (congrArg some h))
    · exact Or.inl rfl
  · split
    · rcases readContent_cases
        (ownRead f.useRc c.qp (c.readCall env (alloc.page c.exec.allocated) w)) _ _ with h | h
      · exact Or.inr (Or.inl (congrArg some h))
      · exact Or.inr (Or.inr (congrArg some h))
    · exact Or.inl rfl

/-- What a fault relies on besides its own READ: memory, and with prefetch a
driver that takes its post, successful READs on the prefetch connection, and
that no page of the cache is read ahead. -/
structure EnvWorks (f : Features) (alloc : PageAllocator) (c : Child) (addr : VirtAddr)
    (env : FaultEnv) : Prop where
  memory : HasMemory alloc c
  post : f.prefetch = true → env.postError = none
  polls : f.prefetch = true → ∀ e ∈ env.prefetchPolls,
    e.pollError = none ∧ ∀ st ∈ e.arrivals, st = .success
  ahead : f.prefetch = true → ∀ pt idx reqs,
    c.descriptor.pageTable.findL1PageIdx c.exec.heap addr = some (pt, idx) →
    StepPrefetcher.generateRequest c.exec.heap prefetchStep (.newFromL1 pt idx) = some reqs →
    ∀ req ∈ reqs, f.cached req.addr = false

namespace Follows

variable {σ : Setup} {areas : List VMADescriptor} {c : Child} {v : SlotView} {f : Features}
  {addr : VirtAddr} {env : FaultEnv}

variable {w : PhysAddr}

theorem findL1PageIdx_of_slotAt (hF : Follows σ areas c v) {pt : Ptr} {idx : PageTableIndex}
    (hs : σ.SlotAt pt idx addr.pageKey) (hw : v.word addr.pageKey = some w) :
    c.descriptor.pageTable.findL1PageIdx c.exec.heap addr = some (pt, idx) := by
  obtain ⟨pt', idx', hfind, hs'⟩ := hF.findL1PageIdx_of_word hw
  have hpt : pt' = pt := Option.some.inj (hs'.node.symm.trans hs.node)
  have hidx : idx' = idx := hs'.index.symm.trans hs.index
  rw [hfind, hpt, hidx]

/-- The READ of a fault: the state when its wait is over, before the page is
filled. -/
theorem readPage_own (hF : Follows σ areas c v) (hv : v.Inv)
    (hσ : ∀ st, σ.status st ↔ st = .success)
    (hw : v.word addr.pageKey = some w) (hreads : f.reads w = true)
    (henv : EnvWorks f σ.alloc c addr env) :
    let page := σ.alloc.page c.exec.allocated
    ∃ c' v', c.readPage f σ.alloc addr env =
        (match c.readOutcome f σ.alloc w env with
        | some content => .ok (c'.fillPage page content, some page)
        | none => .ok (c', none)) ∧
      c'.exec.allocated ≤ c.exec.allocated + prefetchStep + 1 ∧
      SlotRun (SoundEvent f.cached) v v' ∧ Follows σ areas c' v' ∧ v'.holder page = .blank ∧
      v'.word addr.pageKey = some w ∧ SameSlots v v' ∧
      (f.prefetch = false → v'.word = v.word) := by
  intro page
  have hmem := henv.memory
  unfold HasMemory at hmem
  have hnext : c.exec.allocated < σ.alloc.capacity := by omega
  have halloc := SlotStep.alloc (σ.alloc.validPage hnext) (hF.exec.fresh_next hnext)
  have hstart : SlotRun (SoundEvent f.cached) v (v.alloc page) :=
    SlotRun.single (e := .alloc page) trivial halloc
  have hsame : SameSlots v (v.alloc page) := ⟨fun _ => Iff.rfl, rfl⟩
  have hblank : (v.alloc page).holder page = .blank := by simp
  cases hf : f.prefetch with
  | true =>
    have hremote : PhysAddr.bottomBit w = false := by
      simp only [Features.reads, hf, Bool.true_and, Bool.and_eq_true,
        Bool.not_eq_true'] at hreads
      exact hreads.2
    have hquiet : Quiet σ env.prefetchPolls := by
      intro e he
      obtain ⟨herr, harr⟩ := henv.polls hf e he
      exact ⟨herr, fun st hst => (hσ st).mpr (harr st hst)⟩
    obtain ⟨x, v', hread, hcount, hrun, hT⟩ := hF.readRemotePagePrefetch_of_remote hv hw
      hremote (R := fun w => f.cached w = false) (by omega) (henv.post hf) hquiet
      (fun pt idx reqs hs => henv.ahead hf pt idx reqs (hF.findL1PageIdx_of_slotAt hs hw))
    have hv₁ := hv.step halloc
    have hsound : SlotRun (SoundEvent f.cached) (v.alloc page) v' := by
      refine hrun.mono ?_
      rintro (_ | _ | _ | _ | _ | _) (he | he)
      · exact he.2
      · exact he.elim
      · exact he.elim
      · exact (hσ _).mp he
      all_goals exact he.elim
    rw [Child.readPage, if_pos hf, hread, Child.awaitRead, Child.readOutcome, if_pos hf]
    obtain ⟨qp, r, hwait⟩ : ∃ qp r,
        c.waitRead (c.demandRead page w) env = (qp, some r) :=
      exists_wait_result Conn.poll env.polls _
    refine ⟨{ c with exec := x, qp := qp }, v', ?_, hcount, hstart.trans hsound,
      hF.withExec hT hrun.handed, hrun.blank hv₁ hblank,
      hrun.word_remote hv₁ (Nat.lt_succ_self _) hw hremote,
      hsame.trans (sameSlots_of_prefetches hrun hv₁), by simp⟩
    rw [hwait]
    cases r with
    | ok wc => rfl
    | error err => rfl
  | false =>
    have hlookup : c.lookupPgTable addr = some w := (hF.lookupPgTable_eq addr).trans hw
    have hnot : ¬ f.prefetch = true := by simp [hf]
    rw [Child.readPage, if_neg hnot, Child.readRemotePage, hlookup, Child.readOutcome,
      if_neg hnot]
    obtain ⟨qp, r, hread⟩ := exists_remoteRead_result f.useRc c env page w
    refine ⟨{ c with exec := (c.exec.allocPage σ.alloc).1, qp := qp }, v.alloc page, ?_, ?_,
      hstart, hF.withExec (hF.exec.allocPage hnext) rfl, hblank, hw, hsame, fun _ => rfl⟩
    · dsimp only [Executor.allocPage]
      rw [hread]
      cases r with
      | ok r => rfl
      | error err => rfl
    · simp only [Executor.allocPage]
      omega

theorem readPage_local (hF : Follows σ areas c v) (hv : v.Inv)
    (hσ : ∀ st, σ.status st ↔ st = .success) {source : ℕ → Option PhysAddr}
    (hG : Faithful f.cached source v) (hw : v.word addr.pageKey = some w)
    (hf : f.prefetch = true) (hlocal : PhysAddr.bottomBit w = true)
    (henv : EnvWorks f σ.alloc c addr env) :
    ∃ c' page raddr v', c.readPage f σ.alloc addr env = .ok (c', some page) ∧
      SlotRun (SoundEvent f.cached) v (v'.hand addr.pageKey page) ∧
      Follows σ areas c' (v'.hand addr.pageKey page) ∧ SameSlots v v' ∧
      v'.holder page = .slot addr.pageKey ∧
      source addr.pageKey = some raddr ∧ v'.contents page = .remote raddr := by
  obtain ⟨pt, idx, hs, hread⟩ : ∃ pt idx, σ.SlotAt pt idx addr.pageKey ∧
      c.readRemotePagePrefetch σ.alloc addr env = c.takePrefetched addr pt idx env :=
    hF.readRemotePagePrefetch_of_local hw hlocal
  have hquiet : Quiet σ env.prefetchPolls := by
    intro e he
    obtain ⟨herr, harr⟩ := henv.polls hf e he
    exact ⟨herr, fun st hst => (hσ st).mpr (harr st hst)⟩
  obtain ⟨c', page, v', htake, hrun, hhand, hholder, hF'⟩ :=
    hF.takePrefetched hv hs ⟨w, hw, hlocal⟩ hquiet
  have hsound : SlotRun (SoundEvent f.cached) v v' := by
    refine hrun.mono ?_
    rintro (_ | _ | _ | _ | _ | _) he
    · exact he.elim
    · exact (hσ _).mp he
    all_goals exact he.elim
  have hprefetch : SlotRun (SlotEvent.Prefetches 0 (fun _ => True) σ.status) v v' :=
    hrun.of_settles
  obtain ⟨raddr, hsource, hcontents⟩ := (hG.run hv hsound).inSlot page _ hholder
  rw [Child.readPage, if_pos hf, hread]
  exact ⟨c', page, raddr, v', htake,
    hsound.trans (SlotRun.single (e := .hand addr.pageKey) trivial hhand), hF',
    sameSlots_of_prefetches hprefetch hv, hholder, hsource, hcontents⟩

end Follows

/-! ## Faults that keep the contents -/

/-- The child shows a view that is in order and faithful to `source`. -/
structure Shows (f : Features) (σ : Setup) (areas : List VMADescriptor)
    (source : ℕ → Option PhysAddr) (c : Child) (v : SlotView) : Prop where
  inv : v.Inv
  follows : Follows σ areas c v
  faithful : Faithful f.cached source v
  /-- without prefetch no slot is marked or local -/
  plain : f.prefetch = false → ∀ k w, v.word k = some w → PhysAddr.bottomBit w = false

/-- The report of a fault for which no page was obtained. -/
def Child.withoutPage (c : Child) (vmaStart : UInt64) : FaultReport :=
  if c.anonymous vmaStart then .installed .unfilled else .sigsegv

theorem contents_cachePage (f : Features) (c : Child) (addr : VirtAddr) (page : ℕ) :
    (if f.pageCache then c.cachePage addr page else c).exec.contents = c.exec.contents := by
  split
  · rfl
  · rfl

namespace Shows

variable {f : Features} {σ : Setup} {areas : List VMADescriptor}
  {source : ℕ → Option PhysAddr} {c : Child} {v : SlotView} {addr : VirtAddr}
  {fault : Fault} {env : FaultEnv}

variable {w : PhysAddr}

theorem of_run (hS : Shows f σ areas source c v) {c' : Child} {v' : SlotView}
    (hrun : SlotRun (SoundEvent f.cached) v v') (hF : Follows σ areas c' v')
    (hword : f.prefetch = false → v'.word = v.word) : Shows f σ areas source c' v' where
  inv := hS.inv.run hrun
  follows := hF
  faithful := hS.faithful.run hS.inv hrun
  plain hf := by
    rw [hword hf]
    exact hS.plain hf

theorem install (hS : Shows f σ areas source c v) {pt : Ptr} (page : ℕ) {raddr : PhysAddr}
    (hpt : σ.node (addr.pageKey / 512) = some pt)
    (hold : ∀ w, v.word addr.pageKey = some w → PhysAddr.bottomBit w = false)
    (hsource : source addr.pageKey = some raddr) (hcontents : v.contents page = .remote raddr)
    (hsettled : Settled (v.holder page)) :
    ∃ v', Shows f σ areas source (if f.pageCache then c.cachePage addr page else c) v' ∧
      (if f.pageCache then c.cachePage addr page else c).exec.contents page = .remote raddr ∧
      v'.handed = v.handed ∧ ∀ k, v'.word k = none ↔
        v.word k = none ∧ (f.pageCache = true → k ≠ addr.pageKey) := by
  cases hcache : f.pageCache with
  | false =>
    refine ⟨v, by simpa using hS, ?_, rfl, by simp⟩
    simpa [hS.follows.exec.contents] using hcontents
  | true =>
    have hvalid : ValidPage page := by
      rcases hsettled with h | h
      · exact hS.inv.valid_of h (by simp)
      · exact hS.inv.valid_of h (by simp)
    obtain ⟨w, hw, hstep, hF⟩ := hS.follows.cachePage hpt hvalid hold
    have hcached : f.cached w = true := by
      rw [Features.cached, hcache, Bool.true_and, hw, PhysAddr.encode_eq hvalid.aligned,
        PhysAddr.isCache_iff]
      have haligned := hvalid.aligned
      simp only [PhysAddrBitFlag.bits]
      omega
    have hdecode : PhysAddr.decode w = page :=
      hw ▸ PhysAddr.decode_encode hvalid.aligned hvalid.fits .cache
    have hG := hS.faithful.assign hcached hdecode hsource hcontents hsettled
    refine ⟨v.assign addr.pageKey w, ⟨hS.inv.step hstep, hF, hG, ?_⟩, ?_, rfl, ?_⟩
    · intro hf k w' hk
      by_cases hkey : k = addr.pageKey
      · obtain rfl : w = w' := by simpa [hkey] using hk
        cases hstep with
        | assign _ hbit => exact hbit
      · exact hS.plain hf k w' (by simpa [hkey] using hk)
    · rw [if_pos rfl, hF.exec.contents]
      exact hcontents
    · intro k
      by_cases hkey : k = addr.pageKey
      · simp [hkey]
      · simp [hkey]

theorem cached_eq_false (hS : Shows f σ areas source c v) {k : ℕ}
    (hw : v.word k = some w) (hlocal : PhysAddr.bottomBit w = true) : f.cached w = false := by
  have hcache : PhysAddr.isCache w = false := by
    by_cases hmark : w = kMagicInPrefetch
    · rw [hmark]
      rfl
    · obtain ⟨p, hp, hholder⟩ := hS.inv.localPage k w hw hlocal hmark
      have hvalid : ValidPage p := hS.inv.valid_of hholder (by simp)
      have haligned := hvalid.aligned
      rw [hp, hvalid.localWord_eq, Bool.eq_false_iff, ne_eq, PhysAddr.isCache_iff]
      omega
  rw [Features.cached, hcache, Bool.and_false]

theorem faultWithoutPage (hS : Shows f σ areas source c v)
    (hmem : c.exec.allocated < σ.alloc.capacity) (vmaStart : UInt64) :
    ∃ c' r v', c.faultWithoutPage σ.alloc vmaStart = (c', r) ∧
      c'.report r = c.withoutPage vmaStart ∧ Shows f σ areas source c' v' ∧
      SameSlots v v' := by
  rcases hS.follows.faultWithoutPage_cases hmem vmaStart with
    ⟨hanon, c', page, heq, hblank, hstep, hF⟩ | ⟨hanon, heq⟩
  · refine ⟨c', _, v.alloc page, heq, ?_, ?_, ⟨fun _ => Iff.rfl, rfl⟩⟩
    · rw [Child.report, hblank, Child.withoutPage, if_pos hanon]
    · exact hS.of_run (SlotRun.single (e := .alloc page) trivial hstep) hF fun _ => rfl
  · refine ⟨c, _, v, heq, ?_, hS, ⟨fun _ => Iff.rfl, rfl⟩⟩
    rw [Child.report, Child.withoutPage, hanon]
    rfl

theorem fault_unmapped (hS : Shows f σ areas source c v) (hmem : HasMemory σ.alloc c)
    (hw : v.word fault.address.pageKey = none) :
    ∃ c' v', c.faultStep f σ.alloc fault env = (c', c.withoutPage fault.vmaStart) ∧
      Shows f σ areas source c' v' ∧ SameSlots v v' := by
  unfold HasMemory at hmem
  obtain ⟨c', r, v', heq, hreport, hS', hsame⟩ :=
    hS.faultWithoutPage (by omega) fault.vmaStart
  refine ⟨c', v', ?_, hS', hsame⟩
  rw [Child.faultStep, Child.handlePageFault, hS.follows.lookupPgTable_eq, hw, ← hreport]
  simp only [heq]

theorem fault_cached (hS : Shows f σ areas source c v) (hmem : HasMemory σ.alloc c)
    (hw : v.word fault.address.pageKey = some w) (hcached : f.cached w = true) :
    ∃ c' v' raddr, c.faultStep f σ.alloc fault env = (c', .installed (.remote raddr)) ∧
      source fault.address.pageKey = some raddr ∧
      Shows f σ areas source c' v' ∧ SameSlots v v' := by
  unfold HasMemory at hmem
  have hbit : PhysAddr.bottomBit w = false := by
    rw [Bool.eq_false_iff]
    intro hlocal
    rw [hS.cached_eq_false hw hlocal] at hcached
    cases hcached
  obtain ⟨raddr, hsource, hcontents, hsettled⟩ :=
    hS.faithful.cache _ w hw hbit hcached
  have hfault : ∀ c' page, c.cachedPage σ.alloc w = (c', page) →
      c.faultStep f σ.alloc fault env = (c', .installed (c'.exec.contents page)) := by
    intro c' page heq
    rw [Child.faultStep, Child.handlePageFault, hS.follows.lookupPgTable_eq, hw]
    dsimp only
    rw [if_pos (by exact hcached), heq]
    rfl
  rcases hS.follows.cachedPage_cases (by omega) w with
    heq | ⟨c', page, content, hcopy, heq, halloc, hfill, hF⟩
  · refine ⟨c, v, raddr, ?_, hsource, hS, ⟨fun _ => Iff.rfl, rfl⟩⟩
    rw [hfault c _ heq, hS.follows.exec.contents, hcontents]
  · have hne : PhysAddr.decode w ≠ page := by
      intro heq
      cases halloc with
      | alloc _ hfresh =>
        rw [heq, hfresh] at hsettled
        simp [Settled] at hsettled
    have hcontent : content = .remote raddr := by
      rw [hcopy, SlotView.alloc_contents, Function.update_of_ne hne, hcontents]
    have hrun : SlotRun (SoundEvent f.cached) v ((v.alloc page).fill page content) :=
      (SlotRun.single (e := .alloc page) trivial halloc).trans
        (SlotRun.single (e := .fill page content) trivial hfill)
    refine ⟨c', _, raddr, ?_, hsource, hS.of_run hrun hF fun _ => rfl,
      ⟨fun _ => Iff.rfl, rfl⟩⟩
    rw [hfault c' page heq, hF.exec.contents, SlotView.fill_contents, Function.update_self,
      hcontent]

theorem fault_local (hS : Shows f σ areas source c v)
    (hσ : ∀ st, σ.status st ↔ st = .success)
    (henv : EnvWorks f σ.alloc c fault.address env) (hf : f.prefetch = true)
    (hw : v.word fault.address.pageKey = some w)
    (hlocal : PhysAddr.bottomBit w = true) :
    ∃ c' v' page raddr, c.faultStep f σ.alloc fault env = (c', .installed (.remote raddr)) ∧
      source fault.address.pageKey = some raddr ∧ Shows f σ areas source c' v' ∧
      v'.handed = v.handed ++ [(fault.address.pageKey, page)] ∧
      ∀ k, v'.word k = none ↔
        v.word k = none ∨ (f.pageCache = false ∧ k = fault.address.pageKey) := by
  obtain ⟨c', page, raddr, v', hread, hrun, hF, hsame, hholder, hsource, hcontents⟩ :=
    hS.follows.readPage_local hS.inv hσ hS.faithful hw hf hlocal henv
  obtain ⟨pt, idx, -, hs⟩ := hS.follows.findL1PageIdx_of_word hw
  have hS' := hS.of_run hrun hF (by simp [hf])
  obtain ⟨v'', hS'', hinstalled, hhanded, hmapped⟩ :=
    hS'.install page hs.node (by simp) hsource hcontents (Or.inr (by simp))
  refine ⟨_, v'', page, raddr, ?_, hsource, hS'', ?_, ?_⟩
  · rw [Child.faultStep, Child.handlePageFault_of_miss ((hS.follows.lookupPgTable_eq _).trans hw)
      (hS.cached_eq_false hw hlocal) hread, ← hinstalled]
    rfl
  · rw [hhanded, SlotView.hand_handed, hsame.handed]
  · intro k
    rw [hmapped, SlotView.hand_word, ← hsame.mapped]
    by_cases hk : k = fault.address.pageKey
    · simp [hk, hsame.mapped, hw]
    · simp [hk]

theorem bottomBit_of_reads (hS : Shows f σ areas source c v) {k : ℕ}
    (hw : v.word k = some w) (hreads : f.reads w = true) : PhysAddr.bottomBit w = false := by
  cases hf : f.prefetch with
  | true =>
    simp only [Features.reads, hf, Bool.true_and, Bool.and_eq_true,
      Bool.not_eq_true'] at hreads
    exact hreads.2
  | false => exact hS.plain hf k w hw

theorem fault_own (hS : Shows f σ areas source c v)
    (hσ : ∀ st, σ.status st ↔ st = .success)
    (henv : EnvWorks f σ.alloc c fault.address env) (hw : v.word fault.address.pageKey = some w)
    (hreads : f.reads w = true) :
    source fault.address.pageKey = some (PhysAddr.decode w) ∧
    ∃ c', c.faultStep f σ.alloc fault env =
        (c', match c.readOutcome f σ.alloc w env with
          | some content => .installed content
          | none => c.withoutPage fault.vmaStart) ∧
      (c.readOutcome f σ.alloc w env ≠ some .unfilled →
        ∃ v', Shows f σ areas source c' v' ∧ SameSlots v v') := by
  have hmiss : f.cached w = false := by
    simp only [Features.reads, Bool.and_eq_true, Bool.not_eq_true'] at hreads
    exact hreads.1
  have hbit := hS.bottomBit_of_reads hw hreads
  have hsource := hS.faithful.remote _ w hw hbit hmiss
  obtain ⟨c₁, v', hread, hcount, hrun, hF, hblank, hword, hsame, hplain⟩ :=
    hS.follows.readPage_own hS.inv hσ hw hreads henv
  have hlookup := (hS.follows.lookupPgTable_eq _).trans hw
  refine ⟨hsource, ?_⟩
  cases hout : c.readOutcome f σ.alloc w env with
  | none =>
    rw [hout] at hread
    have hmem := henv.memory
    unfold HasMemory at hmem
    obtain ⟨c', r, v'', heq, hreport, hS', hsame'⟩ :=
      (hS.of_run hrun hF hplain).faultWithoutPage (by omega) fault.vmaStart
    have hanon : c₁.withoutPage fault.vmaStart = c.withoutPage fault.vmaStart := by
      rw [Child.withoutPage, Child.withoutPage, hF.anonymous_eq, hS.follows.anonymous_eq]
    have hhandle : c.handlePageFault f σ.alloc fault env = .ok (c', r) := by
      rw [Child.handlePageFault_of_miss hlookup hmiss hread, Option.elim_none, heq]
    refine ⟨c', ?_, fun _ => ⟨v'', hS', hsame.trans hsame'⟩⟩
    rw [Child.faultStep, hhandle]
    exact congrArg (Prod.mk c') (hreport.trans hanon)
  | some content =>
    rw [hout] at hread
    have hfilled := hF.fillPage hblank content
    have hcontents : (v'.fill (σ.alloc.page c.exec.allocated) content).contents
        (σ.alloc.page c.exec.allocated) = content := by simp
    have hstep : c.faultStep f σ.alloc fault env =
        (if f.pageCache then
            (c₁.fillPage (σ.alloc.page c.exec.allocated) content).cachePage fault.address
              (σ.alloc.page c.exec.allocated)
          else c₁.fillPage (σ.alloc.page c.exec.allocated) content, .installed content) := by
      rw [Child.faultStep, Child.handlePageFault_of_miss hlookup hmiss hread]
      refine congrArg (Prod.mk _) (congrArg FaultReport.installed ?_)
      rw [contents_cachePage, hfilled.exec.contents, hcontents]
    refine ⟨_, hstep, fun hne => ?_⟩
    have hright : content = .remote (PhysAddr.decode w) := by
      rcases c.readOutcome_cases f σ.alloc w env with h | h | h
      · rw [h] at hout
        cases hout
      · exact absurd (hout.symm.trans h) hne
      · exact Option.some.inj (hout.symm.trans h)
    obtain ⟨pt, idx, -, hs⟩ := hS.follows.findL1PageIdx_of_word hw
    have hS₁ := hS.of_run (hrun.trans (SlotRun.single (e := .fill _ content) trivial
      (.fill hblank content))) hfilled hplain
    have hold : ∀ w', v'.word fault.address.pageKey = some w' →
        PhysAddr.bottomBit w' = false := by
      intro w' hw'
      rw [← Option.some.inj (hword.symm.trans hw')]
      exact hbit
    obtain ⟨v'', hS', -, hhanded, hmapped⟩ := hS₁.install _ hs.node hold hsource
      (hcontents.trans hright) (Or.inl (by simp))
    refine ⟨v'', hS', fun k => ?_, hhanded.trans hsame.handed⟩
    rw [hmapped, SlotView.fill_word, hsame.mapped, and_iff_left_iff_imp]
    rintro hk - rfl
    rw [hw] at hk
    cases hk

/-- What a fault can do: without a word it gets no page; a word that needs no
READ leads to the remote page of its slot, and the slot stays mapped unless a
page that was read ahead is handed out; otherwise the READ decides. -/
theorem fault_cases (hS : Shows f σ areas source c v)
    (hσ : ∀ st, σ.status st ↔ st = .success)
    (henv : EnvWorks f σ.alloc c fault.address env) :
    (v.word fault.address.pageKey = none ∧ ∃ c' v',
      c.faultStep f σ.alloc fault env = (c', c.withoutPage fault.vmaStart) ∧
      Shows f σ areas source c' v' ∧ SameSlots v v') ∨
    (∃ w raddr c' v', v.word fault.address.pageKey = some w ∧ f.reads w = false ∧
      source fault.address.pageKey = some raddr ∧
      c.faultStep f σ.alloc fault env = (c', .installed (.remote raddr)) ∧
      Shows f σ areas source c' v' ∧ (SameSlots v v' ∨ f.prefetch = true ∧
        (∃ page, v'.handed = v.handed ++ [(fault.address.pageKey, page)]) ∧
        ∀ k, v'.word k = none ↔
          v.word k = none ∨ (f.pageCache = false ∧ k = fault.address.pageKey))) ∨
    (∃ w c', v.word fault.address.pageKey = some w ∧ f.reads w = true ∧
      source fault.address.pageKey = some (PhysAddr.decode w) ∧
      c.faultStep f σ.alloc fault env =
        (c', match c.readOutcome f σ.alloc w env with
          | some content => .installed content
          | none => c.withoutPage fault.vmaStart) ∧
      (c.readOutcome f σ.alloc w env ≠ some .unfilled →
        ∃ v', Shows f σ areas source c' v' ∧ SameSlots v v')) := by
  cases hw : v.word fault.address.pageKey with
  | none => exact Or.inl ⟨rfl, hS.fault_unmapped henv.memory hw⟩
  | some w =>
    refine Or.inr ?_
    cases hreads : f.reads w with
    | true =>
      obtain ⟨hsource, c', hstep, hnext⟩ := hS.fault_own hσ henv hw hreads
      exact Or.inr ⟨w, c', rfl, hreads, hsource, hstep, hnext⟩
    | false =>
      refine Or.inl ?_
      cases hcached : f.cached w with
      | true =>
        obtain ⟨c', v', raddr, hstep, hsource, hS', hsame⟩ :=
          hS.fault_cached henv.memory hw hcached
        exact ⟨w, raddr, c', v', rfl, hreads, hsource, hstep, hS', Or.inl hsame⟩
      | false =>
        have hlocal : f.prefetch = true ∧ PhysAddr.bottomBit w = true := by
          simpa [Features.reads, hcached, PhysAddr.bottomBit] using hreads
        obtain ⟨c', v', page, raddr, hstep, hsource, hS', hhanded, hwords⟩ :=
          hS.fault_local hσ henv hlocal.1 hw hlocal.2
        exact ⟨w, raddr, c', v', rfl, hreads, hsource, hstep, hS',
          Or.inr ⟨hlocal.1, ⟨page, hhanded⟩, hwords⟩⟩

theorem complete (hS : Shows f σ areas source c v) {status : WCStatus}
    (hstatus : σ.status status) : Shows f σ areas source (c.complete status) v := by
  have harr : ∀ st ∈ [status], σ.status st := by
    rintro st hst
    rwa [List.mem_singleton.mp hst]
  have hT := hS.follows.exec.arrive harr
  exact ⟨hS.inv, ⟨hS.follows.root, hS.follows.areas, hT, hS.follows.handed⟩, hS.faithful,
    hS.plain⟩

theorem pollOnce (hS : Shows f σ areas source c v)
    (hσ : ∀ st, σ.status st ↔ st = .success) {e : CqEvent}
    (he : ∀ st ∈ e.arrivals, st = .success) :
    (c.pollOnce e).2 = none ∧
      ∃ v', Shows f σ areas source (c.pollOnce e).1 v' ∧ SameSlots v v' := by
  have harr : ∀ st ∈ e.arrivals, σ.status st := fun st hst => (hσ st).mpr (he st hst)
  have hF := hS.follows
  unfold Child.pollOnce
  rcases hF.exec.poll_cases hS.inv harr with
    ⟨x, err, -, hp, hT⟩ | ⟨x, -, hp, hT⟩ | ⟨x, fetch, rest, status, hst, hq, hp, hT⟩
  · rw [hp]
    exact ⟨rfl, v, ⟨hS.inv, ⟨hF.root, hF.areas, hT, hF.handed⟩, hS.faithful, hS.plain⟩,
      ⟨fun _ => Iff.rfl, rfl⟩⟩
  · rw [hp]
    exact ⟨rfl, v, ⟨hS.inv, ⟨hF.root, hF.areas, hT, hF.handed⟩, hS.faithful, hS.plain⟩,
      ⟨fun _ => Iff.rfl, rfl⟩⟩
  · rw [hp]
    obtain rfl : status = .success := (hσ status).mp hst
    have hmark := (hS.inv.marked fetch.slot).mpr (by simp [hq])
    refine ⟨rfl, v.settle fetch rest .success,
      ⟨hS.inv.settle hq _, ⟨hF.root, hF.areas, hT, hF.handed⟩, hS.faithful.settle hS.inv hq, ?_⟩,
      sameSlots_of_update hmark rfl rfl⟩
    intro hf
    -- without prefetch no slot is marked
    have hbit := hS.plain hf _ _ hmark
    rw [bottomBit_magic] at hbit
    cases hbit

end Shows

/-! ## The first state -/

/-- The words of a resumed child lead to the pages in `source`: remote addresses
name them, and pages of the cache hold their content and are not free. -/
structure CacheHolds (f : Features) (alloc : PageAllocator) (c : Child)
    (source : ℕ → Option PhysAddr) : Prop where
  absent : ∀ addr, c.lookupPgTable addr = none → source addr.pageKey = none
  remote : ∀ addr w, c.lookupPgTable addr = some w → f.cached w = false →
    source addr.pageKey = some (PhysAddr.decode w)
  cached : ∀ addr w, c.lookupPgTable addr = some w → f.cached w = true →
    (∃ raddr, source addr.pageKey = some raddr ∧
      c.exec.contents (PhysAddr.decode w) = .remote raddr) ∧
    ValidPage (PhysAddr.decode w) ∧
    ∀ n, c.exec.allocated ≤ n → n < alloc.capacity → alloc.page n ≠ PhysAddr.decode w

/-- The remote pages that a child's table names. -/
def Child.source (c : Child) (k : ℕ) : Option PhysAddr :=
  (nodeAt c.exec.heap c.root 4 k).map PhysAddr.decode

variable {f : Features}

theorem cacheHolds_of_noCache (hf : f.pageCache = false)
    (alloc : PageAllocator) (c : Child) : CacheHolds f alloc c c.source := by
  have hsource : ∀ addr : VirtAddr, c.source addr.pageKey =
      (c.lookupPgTable addr).map PhysAddr.decode := by
    intro addr
    rw [Child.lookupPgTable, translate_eq]
    rfl
  constructor
  case absent =>
    intro addr hnone
    rw [hsource, hnone]
    rfl
  case remote =>
    intro addr w hw _
    rw [hsource, hw]
    rfl
  case cached =>
    intro addr w _ hc
    rw [Features.cached, hf, Bool.false_and] at hc
    cases hc

theorem CacheHolds.lookupPgTable_eq_none_iff {alloc : PageAllocator} {c : Child}
    {source : ℕ → Option PhysAddr} (h : CacheHolds f alloc c source) (addr : VirtAddr) :
    c.lookupPgTable addr = none ↔ source addr.pageKey = none := by
  constructor
  · exact h.absent addr
  · intro hnone
    cases hw : c.lookupPgTable addr with
    | none => rfl
    | some w =>
      cases hc : f.cached w with
      | false =>
        rw [h.remote addr w hw hc] at hnone
        cases hnone
      | true =>
        obtain ⟨⟨raddr, hsource, -⟩, -, -⟩ := h.cached addr w hw hc
        rw [hsource] at hnone
        cases hnone

theorem Resumed.shows {alloc : PageAllocator} {c : Child}
    {source : ℕ → Option PhysAddr} (h : Resumed c) (hcache : CacheHolds f alloc c source) :
    ∃ v, Shows f (c.setup alloc (· = .success) rfl) c.descriptor.vma source c v ∧
      (∀ addr : VirtAddr, v.word addr.pageKey = none ↔ source addr.pageKey = none) ∧
      v.handed = [] := by
  classical
  let inCache : ℕ → Prop := fun p =>
    ∃ addr w, c.lookupPgTable addr = some w ∧ f.cached w = true ∧ PhysAddr.decode w = p
  let holder : ℕ → Holder := fun p => if inCache p then .filled else .nobody
  have hlookup : ∀ {k w}, (c.view holder).word k = some w →
      ∃ addr : VirtAddr, addr.pageKey = k ∧ c.lookupPgTable addr = some w := by
    intro k w hw
    exact ⟨VirtAddr.ofPageKey k, VirtAddr.pageKey_ofPageKey (present_four_lt ⟨w, hw⟩),
      translate_of_nodeAt hw⟩
  have hplain : ∀ p, ¬ (holder p).Prefetched := by
    intro p
    simp only [holder]
    split
    · exact id
    · exact id
  have hvalid : ∀ p, holder p ≠ .nobody → ValidPage p := by
    intro p hp
    have hin : inCache p := by
      by_contra hnot
      exact hp (if_neg hnot)
    obtain ⟨addr, w, hw, hc, rfl⟩ := hin
    exact (hcache.cached addr w hw hc).2.1
  have hfresh : ∀ n, c.exec.allocated ≤ n → n < alloc.capacity →
      holder (alloc.page n) = .nobody := by
    intro n hn hlt
    refine if_neg ?_
    rintro ⟨addr, w, hw, hc, heq⟩
    exact (hcache.cached addr w hw hc).2.2 n hn hlt heq.symm
  refine ⟨c.view holder, ⟨h.inv hplain hvalid, h.follows alloc (by exact rfl) hplain hfresh, ?_, ?_⟩,
    ?_, rfl⟩
  · constructor
    case remote =>
      intro k w hw hbit hc
      obtain ⟨addr, rfl, hw'⟩ := hlookup hw
      exact hcache.remote addr w hw' hc
    case cache =>
      intro k w hw hbit hc
      obtain ⟨addr, rfl, hw'⟩ := hlookup hw
      obtain ⟨⟨raddr, hsource, hcontents⟩, -, -⟩ := hcache.cached addr w hw' hc
      exact ⟨raddr, hsource, hcontents, Or.inl (if_pos ⟨addr, w, hw', hc, rfl⟩)⟩
    case fetches => exact fun f hf => absurd hf List.not_mem_nil
    case inSlot =>
      intro p k hp
      have hno := hplain p
      rw [show holder p = .slot k from hp] at hno
      exact absurd trivial hno
  · exact fun _ k w hw => h.view_word_remote hw
  · intro addr
    have heq : (c.view holder).word addr.pageKey = c.lookupPgTable addr := by
      rw [Child.lookupPgTable, translate_eq]
      rfl
    rw [heq]
    exact hcache.lookupPgTable_eq_none_iff addr

end Mitosis.PageFault
