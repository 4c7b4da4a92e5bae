import Mitosis.PageFault.Handler
import Mitosis.Prefetcher.Refinement
import Mitosis.RemoteMapping.SlotOrder

/-!
# The fault handler takes the steps of the slot view

Each part of the handler, from a child that follows a slot view, returns and
makes steps of the view.  The polls of the prefetch connection must not fail:
`poll_prefetcher` panics on an error.
-/

namespace Mitosis.PageFault

open Mitosis.Descriptors
open Mitosis.OsNetwork
open Mitosis.Prefetcher
open Mitosis.RemoteMapping
open Mitosis.RemotePaging
open Mitosis.Support (Machine)

/-- No poll of the schedule fails, and completions have the statuses of the
setup. -/
def Quiet (σ : Setup) (es : List CqEvent) : Prop :=
  ∀ e ∈ es, e.pollError = none ∧ ∀ st ∈ e.arrivals, σ.status st

theorem Quiet.arriving {σ : Setup} {es : List CqEvent} (hes : Quiet σ es) :
    Arriving σ.status es :=
  fun e he => (hes e he).2

theorem Quiet.of_suffix {σ : Setup} {es es' : List CqEvent} (hes : Quiet σ es)
    (hsuf : es' <:+ es) : Quiet σ es' :=
  fun e he => hes e (hsuf.subset he)

theorem Quiet.nextEvent_pollError {σ : Setup} {es : List CqEvent} (hes : Quiet σ es)
    (conn : QueuePair) : (nextEvent conn es).1.pollError = none := by
  cases es with
  | nil => rfl
  | cons e es => exact (hes e List.mem_cons_self).1

/-! ## Polling the prefetcher -/

section Polling

variable {σ : Setup} {x : Executor} {v : SlotView} {es : List CqEvent}

theorem pollLoop_spec {bound : ℕ} (hT : Tracks σ x v) (hv : v.Inv) (hes : Quiet σ es)
    (hbound : v.queue.length < bound) :
    ∃ x' es' v', Child.pollLoop bound x es = .ok (x', es') ∧
      SlotRun (SlotEvent.Settles σ.status) v v' ∧ Tracks σ x' v' ∧
      es' <:+ es.tail ∧ (es = [] → v'.queue = []) := by
  induction bound generalizing x v es with
  | zero => omega
  | succ bound ih =>
    unfold Child.pollLoop
    rw [nextEvent_rest]
    rcases hT.poll_cases hv (hes.arriving.nextEvent σ.success x.prefetcher.conn) with
      ⟨x', err, herr, -, -⟩ | ⟨x', hnil, hp, hT'⟩ | ⟨x', f, rest, status, hst, hq, hp, hT'⟩
    · rw [hes.nextEvent_pollError] at herr
      cases herr
    · rw [hp]
      refine ⟨x', es.tail, v, rfl, .refl, hT', List.suffix_rfl, ?_⟩
      rintro rfl
      exact hT.queue_eq_nil_of_idle hnil
    · rw [hp]
      have hlen : rest.length < bound := by
        rw [hq, List.length_cons] at hbound
        omega
      obtain ⟨x'', es'', v'', hloop, hrun, hT'', hsuf, hend⟩ :=
        ih hT' (hv.settle hq status) (hes.of_suffix (List.tail_suffix es)) hlen
      have hsettles : SlotEvent.Settles σ.status (.settle status) := hst
      refine ⟨x'', es'', v'', hloop,
        (SlotRun.single hsettles (SlotStep.settle hq status)).trans hrun, hT'',
        hsuf.trans (List.tail_suffix _), ?_⟩
      rintro rfl
      exact hend rfl

theorem allocated_pollLoop {bound : ℕ} {x' : Executor} {es' : List CqEvent}
    (h : Child.pollLoop bound x es = .ok (x', es')) : x'.allocated = x.allocated := by
  refine (Child.polled_pollLoop h).invariant (I := fun y => y.allocated = x.allocated) ?_ rfl
  intro y e hy
  rw [Executor.allocated_poll, hy]

theorem pollPrefetcher_spec (hT : Tracks σ x v) (hv : v.Inv) (hes : Quiet σ es) :
    ∃ x' es' v', Child.pollPrefetcher x es = .ok (x', es') ∧
      SlotRun (SlotEvent.Settles σ.status) v v' ∧ Tracks σ x' v' ∧
      es' <:+ es.tail ∧ (es = [] → v'.queue = []) := by
  have hlen : x.prefetcher.conn.cq.outstanding.length = v.queue.length := by
    have hreads := congrArg List.length hT.reads
    rwa [List.length_map, List.length_map] at hreads
  apply pollLoop_spec hT hv hes
  rw [hlen]
  exact Nat.lt_succ_self _

/-- The wait for a marked slot ends with a local page in it. -/
theorem waitPrefetched_spec {pt : Ptr} {idx : PageTableIndex} {k bound : ℕ}
    (hs : σ.SlotAt pt idx k) (hT : Tracks σ x v) (hv : v.Inv)
    (hw : ∃ w, v.word k = some w ∧ PhysAddr.bottomBit w = true) (hes : Quiet σ es)
    (hbound : es.length + 1 < bound) :
    ∃ x' v' w, Child.waitPrefetched pt idx bound x es = .ok x' ∧
      SlotRun (SlotEvent.Settles σ.status) v v' ∧ Tracks σ x' v' ∧
      v'.word k = some w ∧ PhysAddr.bottomBit w = true ∧ w ≠ kMagicInPrefetch := by
  induction bound generalizing x v es with
  | zero => omega
  | succ bound ih =>
    obtain ⟨w, hword, hbit⟩ := hw
    rw [Child.waitPrefetched, hT.table.entries_eq hs hword]
    by_cases hmark : w = kMagicInPrefetch
    · obtain ⟨x', es', v', hpoll, hrun, hT', hsuf, hend⟩ := pollPrefetcher_spec hT hv hes
      have hw' := hrun.word_local hv ⟨w, hword, hbit⟩
      have hv' := hv.run hrun
      rw [if_pos hmark, hpoll]
      change ∃ x'' v'' w, Child.waitPrefetched pt idx bound x' es' = .ok x'' ∧ _
      cases es with
      | nil =>
        -- every READ has been polled, so the slot is not marked any more
        obtain ⟨w', hword', hbit'⟩ := hw'
        have hready : w' ≠ kMagicInPrefetch := by
          rintro rfl
          have hmem := (hv'.marked k).mp hword'
          rw [hend rfl] at hmem
          cases hmem
        have hpos : 0 < bound := by
          simp only [List.length_nil] at hbound
          omega
        obtain ⟨bound, rfl⟩ := Nat.exists_eq_add_one.mpr hpos
        rw [Child.waitPrefetched, hT'.table.entries_eq hs hword', if_neg hready]
        exact ⟨x', v', w', rfl, hrun, hT', hword', hbit', hready⟩
      | cons e es =>
        have hshort : es'.length + 1 < bound := by
          have hle := hsuf.length_le
          simp only [List.tail_cons] at hle
          simp only [List.length_cons] at hbound
          omega
        have hquiet := hes.of_suffix (hsuf.trans (List.tail_suffix _))
        obtain ⟨x'', v'', w'', hwait, hrun', hrest⟩ := ih hT' hv' hw' hquiet hshort
        exact ⟨x'', v'', w'', hwait, hrun.trans hrun', hrest⟩
    · rw [if_neg hmark]
      exact ⟨x, v, w, rfl, .refl, hT, hword, hbit, hmark⟩

end Polling

/-! ## The parts of the handler -/

/-- The child is in the state that the view shows. -/
structure Follows (σ : Setup) (areas : List VMADescriptor) (c : Child) (v : SlotView) :
    Prop where
  root : c.root = σ.root
  areas : c.descriptor.vma = areas
  exec : Tracks σ c.exec v
  handed : c.handed = v.handed

namespace Follows

variable {σ : Setup} {areas : List VMADescriptor} {c : Child} {v : SlotView}
  {addr : VirtAddr} {env : FaultEnv}

theorem lookupPgTable_eq (hF : Follows σ areas c v) (addr : VirtAddr) :
    c.lookupPgTable addr = v.word addr.pageKey := by
  rw [Child.lookupPgTable, translate_eq, ← hF.exec.table.words, ← hF.root]
  rfl

theorem findL1PageIdx_of_word (hF : Follows σ areas c v) {w : PhysAddr}
    (hw : v.word addr.pageKey = some w) :
    ∃ pt idx, c.descriptor.pageTable.findL1PageIdx c.exec.heap addr = some (pt, idx) ∧
      σ.SlotAt pt idx addr.pageKey := by
  obtain ⟨pt, hs⟩ := hF.exec.table.exists_slotAt hw
  refine ⟨pt, _, findL1PageIdx_eq_some.mpr ⟨?_, rfl⟩, hs⟩
  rw [← hs.node, ← hF.exec.table.nodes, ← hF.root]
  rfl

theorem takePrefetched (hF : Follows σ areas c v) (hv : v.Inv) {pt : Ptr}
    {idx : PageTableIndex} (hs : σ.SlotAt pt idx addr.pageKey)
    (hw : ∃ w, v.word addr.pageKey = some w ∧ PhysAddr.bottomBit w = true)
    (hes : Quiet σ env.prefetchPolls) :
    ∃ c' page v', c.takePrefetched addr pt idx env = .ok (c', some page) ∧
      SlotRun (SlotEvent.Settles σ.status) v v' ∧
      SlotStep v' (.hand addr.pageKey) (v'.hand addr.pageKey page) ∧
      v'.holder page = .slot addr.pageKey ∧
      Follows σ areas c' (v'.hand addr.pageKey page) := by
  obtain ⟨x, v', w, hwait, hrun, hT, hword, hbit, hready⟩ :=
    waitPrefetched_spec hs hF.exec hv hw hes (Nat.lt_succ_self _)
  have hholder := ((hv.run hrun).holder_decode hword hbit hready).1
  have hhanded := hrun.handed_of_settles
  have htake : c.takePrefetched addr pt idx env =
      .ok ({ c with
        exec := { x with heap := x.heap.setEntry pt idx 0 }
        handed := c.handed ++ [(addr.pageKey, PhysAddr.decode w)] },
        some (PhysAddr.decode w)) := by
    rw [Child.takePrefetched, hwait, ← hT.table.entries_eq hs hword]
    rfl
  refine ⟨_, _, v', htake, hrun, SlotStep.hand hword hbit hready, hholder, ?_⟩
  refine ⟨hF.root, hF.areas, hT.hand hs hholder, ?_⟩
  rw [SlotView.hand_handed, hhanded, hF.handed]

theorem readRemotePagePrefetch_of_remote (hF : Follows σ areas c v) (hv : v.Inv)
    {w : PhysAddr} (hw : v.word addr.pageKey = some w)
    (hremote : PhysAddr.bottomBit w = false)
    (hmem : c.exec.allocated + prefetchStep + 1 ≤ σ.alloc.capacity)
    (hpost : env.postError = none) (hes : Quiet σ env.prefetchPolls) {R : PhysAddr → Prop}
    (hR : ∀ pt idx reqs, σ.SlotAt pt idx addr.pageKey →
      StepPrefetcher.generateRequest c.exec.heap prefetchStep (.newFromL1 pt idx) = some reqs →
      ∀ req ∈ reqs, R req.addr) :
    ∃ x v', c.readRemotePagePrefetch σ.alloc addr env =
        c.awaitRead x (c.demandRead (σ.alloc.page c.exec.allocated) w) env ∧
      x.allocated ≤ c.exec.allocated + prefetchStep + 1 ∧
      SlotRun (SlotEvent.Prefetches (addr.pageKey + 1) R σ.status)
        (v.alloc (σ.alloc.page c.exec.allocated)) v' ∧
      Tracks σ x v' := by
  obtain ⟨pt, idx, hfind, hs⟩ := hF.findL1PageIdx_of_word hw
  have hnext : c.exec.allocated < σ.alloc.capacity := by omega
  have hv₁ : (v.alloc (σ.alloc.page c.exec.allocated)).Inv :=
    hv.step (.alloc (σ.alloc.validPage hnext) (hF.exec.fresh_next hnext))
  have hmem₁ : (c.exec.allocPage σ.alloc).1.allocated + prefetchStep ≤ σ.alloc.capacity := by
    simp only [Executor.allocPage]
    omega
  have hpos := position_newFromL1 ((hF.exec.table.nodes _).trans hs.node) idx
  rw [hs.slot_eq] at hpos
  obtain ⟨x₁, v₁, hexec, hcount, hissue, hT₁⟩ := (hF.exec.allocPage hnext).executeReqs hpos
    hmem₁ (fun reqs hreqs => hR pt idx reqs hs hreqs)
  obtain ⟨x₂, es', v₂, hpoll, hsettle, hT₂, -, -⟩ :=
    pollPrefetcher_spec hT₁ (hv₁.run hissue) hes
  refine ⟨x₂, v₂, ?_, ?_, (hissue.mono fun _ => Or.inl).trans hsettle.of_settles, hT₂⟩
  case refine_2 =>
    rw [allocated_pollLoop hpoll]
    simp only [Executor.allocPage] at hcount
    omega
  rw [Child.readRemotePagePrefetch, hfind]
  dsimp only
  have hnot : ¬ PhysAddr.isPrefetch w = true := ne_true_of_eq_false hremote
  rw [hF.exec.table.entries_eq hs hw, if_neg hnot, hpost]
  simp only [Executor.allocPage] at hexec
  simp [Executor.allocPage, hexec, hpoll, bind, Except.bind]

theorem readRemotePagePrefetch_of_local (hF : Follows σ areas c v) {w : PhysAddr}
    (hw : v.word addr.pageKey = some w) (hlocal : PhysAddr.bottomBit w = true) :
    ∃ pt idx, σ.SlotAt pt idx addr.pageKey ∧
      c.readRemotePagePrefetch σ.alloc addr env = c.takePrefetched addr pt idx env := by
  obtain ⟨pt, idx, hfind, hs⟩ := hF.findL1PageIdx_of_word hw
  refine ⟨pt, idx, hs, ?_⟩
  rw [Child.readRemotePagePrefetch, hfind]
  dsimp only
  rw [hF.exec.table.entries_eq hs hw]
  exact if_pos hlocal

end Follows

theorem awaitRead_cases (c : Child) (x : Executor) (own : ReadRequest) (env : FaultEnv) :
    (∃ qp wc, c.waitRead own env = (qp, some (.ok wc)) ∧
      c.awaitRead x own env =
        .ok (({ c with exec := x, qp := qp } : Child).fillPage own.laddr
          (readContent own wc qp), some own.laddr)) ∨
    (∃ qp err, c.waitRead own env = (qp, some (.error err)) ∧
      c.awaitRead x own env = .ok ({ c with exec := x, qp := qp }, none)) := by
  obtain ⟨qp, r, hwait⟩ : ∃ qp r, c.waitRead own env = (qp, some r) :=
    exists_wait_result Conn.poll env.polls _
  cases r with
  | ok wc =>
    refine Or.inl ⟨qp, wc, hwait, ?_⟩
    rw [Child.awaitRead, hwait]
  | error err =>
    refine Or.inr ⟨qp, err, hwait, ?_⟩
    rw [Child.awaitRead, hwait]

theorem exists_remoteRead_result (useRc : Bool) (c : Child) (env : FaultEnv) (page : ℕ)
    (w : PhysAddr) :
    ∃ qp r, remoteRead useRc c.qp (c.readCall env page w) = (qp, some r) := by
  unfold remoteRead
  cases hpost : env.postError with
  | some err =>
    simp only [RemoteDevice.read, Child.readCall, hpost]
    exact ⟨_, _, rfl⟩
  | none =>
    simp only [RemoteDevice.read, Child.readCall, hpost]
    obtain ⟨qp, r, hwait⟩ := exists_wait_result RemoteDevice.poll env.polls
      (Conn.post c.qp (endpointOf useRc c.accessInfo) (PhysAddr.decode w)
        c.accessInfo.rkey page 4096)
    rw [hwait]
    exact ⟨_, _, rfl⟩

namespace Follows

variable {σ : Setup} {areas : List VMADescriptor} {c : Child} {v : SlotView}
  {addr : VirtAddr} {env : FaultEnv}

theorem fillPage (hF : Follows σ areas c v) {page : ℕ} (hblank : v.holder page = .blank)
    (content : PageContent) :
    Follows σ areas (c.fillPage page content) (v.fill page content) where
  root := hF.root
  areas := hF.areas
  exec := hF.exec.fill hblank content
  handed := hF.handed

theorem withExec {x : Executor} {qp : QueuePair} (hF : Follows σ areas c v)
    {v' : SlotView} (hT : Tracks σ x v') (hhanded : v'.handed = v.handed) :
    Follows σ areas { c with exec := x, qp := qp } v' where
  root := hF.root
  areas := hF.areas
  exec := hT
  handed := hF.handed.trans hhanded.symm

theorem anonymous_eq (hF : Follows σ areas c v) (vmaStart : UInt64) :
    c.anonymous vmaStart =
      areas.any fun vd => vd.isAnonymous && vmaStart == vd.getStart := by
  rw [Child.anonymous, hF.areas]

theorem faultWithoutPage_cases (hF : Follows σ areas c v)
    (hmem : c.exec.allocated < σ.alloc.capacity) (vmaStart : UInt64) :
    (c.anonymous vmaStart = true ∧ ∃ c' page,
      c.faultWithoutPage σ.alloc vmaStart = (c', .installed page) ∧
      c'.exec.contents page = .unfilled ∧
      SlotStep v (.alloc page) (v.alloc page) ∧ Follows σ areas c' (v.alloc page)) ∨
    (c.anonymous vmaStart = false ∧
      c.faultWithoutPage σ.alloc vmaStart = (c, .sigsegv)) := by
  unfold Child.faultWithoutPage
  cases hanon : c.anonymous vmaStart with
  | true =>
    have hstep := SlotStep.alloc (σ.alloc.validPage hmem) (hF.exec.fresh_next hmem)
    refine Or.inl ⟨rfl, _, _, rfl, ?_, hstep, hF.root, hF.areas, hF.exec.allocPage hmem,
      hF.handed⟩
    exact Function.update_self ..
  | false => exact Or.inr ⟨rfl, rfl⟩

theorem cachedPage_cases (hF : Follows σ areas c v)
    (hmem : c.exec.allocated < σ.alloc.capacity) (w : PhysAddr) :
    c.cachedPage σ.alloc w = (c, PhysAddr.decode w) ∨
    (∃ c' page content, content = (v.alloc page).contents (PhysAddr.decode w) ∧
      c.cachedPage σ.alloc w = (c', page) ∧
      SlotStep v (.alloc page) (v.alloc page) ∧
      SlotStep (v.alloc page) (.fill page content) ((v.alloc page).fill page content) ∧
      Follows σ areas c' ((v.alloc page).fill page content)) := by
  unfold Child.cachedPage
  cases hro : PhysAddr.isRo w with
  | true => exact Or.inl rfl
  | false =>
    have hstep := SlotStep.alloc (σ.alloc.validPage hmem) (hF.exec.fresh_next hmem)
    have hblank : (v.alloc (σ.alloc.page c.exec.allocated)).holder
        (σ.alloc.page c.exec.allocated) = .blank := by simp
    have hT := hF.exec.allocPage hmem
    exact Or.inr ⟨_, _, _, congrFun hT.contents _, rfl, hstep, .fill hblank _, hF.root,
      hF.areas, hT.fill hblank _, hF.handed⟩

theorem cachePage (hF : Follows σ areas c v) {pt : Ptr} {page : ℕ}
    (hpt : σ.node (addr.pageKey / 512) = some pt) (hpage : ValidPage page)
    (hold : ∀ w, v.word addr.pageKey = some w → PhysAddr.bottomBit w = false) :
    ∃ w, w = PhysAddr.encode page PhysAddrBitFlag.cache.bits ∧
      SlotStep v (.assign addr.pageKey w) (v.assign addr.pageKey w) ∧
      Follows σ areas (c.cachePage addr page) (v.assign addr.pageKey w) := by
  have hword : PhysAddr.encode page PhysAddrBitFlag.cache.bits = page + 2 :=
    PhysAddr.encode_eq hpage.aligned .cache
  have heven : PhysAddr.bottomBit (PhysAddr.encode page PhysAddrBitFlag.cache.bits) = false := by
    have haligned := hpage.aligned
    rw [hword]
    exact (PhysAddr.isPrefetch_eq_false_iff _).mpr (by omega)
  have hne : PhysAddr.encode page PhysAddrBitFlag.cache.bits ≠ 0 := by
    rw [hword]
    omega
  have hwf := hF.exec.table.wellFormed
  rw [← hF.root] at hwf
  have hroot := (forceMap_spec (a := addr) hwf
    (PhysAddr.encode page PhysAddrBitFlag.cache.bits)).1
  exact ⟨_, rfl, .assign hold heven, hroot.trans hF.root, hF.areas,
    hF.exec.forceMap hF.root hpt hne, hF.handed⟩

end Follows

/-! ## A whole fault -/

/-- There are pages left for a fault. -/
def HasMemory (alloc : PageAllocator) (c : Child) : Prop :=
  c.exec.allocated + prefetchStep + 2 ≤ alloc.capacity

instance (alloc : PageAllocator) (c : Child) : Decidable (HasMemory alloc c) :=
  inferInstanceAs (Decidable (_ ≤ _))

/-- The driver takes the READ of the fault, and the prefetch connection is
quiet. -/
structure FaultEnv.Quiet (σ : Setup) (env : FaultEnv) : Prop where
  post : env.postError = none
  polls : PageFault.Quiet σ env.prefetchPolls

namespace Follows

variable {σ : Setup} {areas : List VMADescriptor} {c : Child} {v : SlotView}
  {addr : VirtAddr} {env : FaultEnv}

theorem readRemotePagePrefetch (hF : Follows σ areas c v) (hv : v.Inv) {w : PhysAddr}
    (hw : v.word addr.pageKey = some w)
    (hmem : c.exec.allocated + prefetchStep + 1 ≤ σ.alloc.capacity) (henv : env.Quiet σ) :
    ∃ c' r v', c.readRemotePagePrefetch σ.alloc addr env = .ok (c', r) ∧
      (r = none → c'.exec.allocated ≤ c.exec.allocated + prefetchStep + 1) ∧
      SlotRun (fun _ => True) v v' ∧ Follows σ areas c' v' ∧
      ∀ page, r = some page → ValidPage page ∧
        ∀ w', v'.word addr.pageKey = some w' → PhysAddr.bottomBit w' = false := by
  cases hbit : PhysAddr.bottomBit w with
  | true =>
    obtain ⟨pt, idx, hs, hread⟩ := hF.readRemotePagePrefetch_of_local hw hbit
    obtain ⟨c', page, v', htake, hrun, hstep, hholder, hF'⟩ :=
      hF.takePrefetched hv hs ⟨w, hw, hbit⟩ henv.polls
    refine ⟨c', some page, _, hread.trans htake, by simp,
      (hrun.mono fun _ _ => trivial).trans (SlotRun.single trivial hstep), hF', ?_⟩
    rintro _ ⟨⟩
    exact ⟨(hv.run hrun).valid_of hholder (by simp), by simp⟩
  | false =>
    obtain ⟨x, v', hread, hcount, hrun, hT⟩ := hF.readRemotePagePrefetch_of_remote hv hw hbit
      hmem henv.post henv.polls (R := fun _ => True) (fun _ _ _ _ _ _ _ => trivial)
    have hnext : c.exec.allocated < σ.alloc.capacity := by omega
    have halloc := SlotStep.alloc (σ.alloc.validPage hnext) (hF.exec.fresh_next hnext)
    have hv₁ := hv.step halloc
    have hrun' : SlotRun (fun _ => True) v v' :=
      (SlotRun.single trivial halloc).trans (hrun.mono fun _ _ => trivial)
    have hblank := hrun.blank hv₁ (p := σ.alloc.page c.exec.allocated) (by simp)
    rcases awaitRead_cases c x (c.demandRead (σ.alloc.page c.exec.allocated) w) env with
      ⟨qp, wc, -, hawait⟩ | ⟨qp, err, -, hawait⟩
    · refine ⟨_, _, _, hread.trans hawait, by simp, hrun'.trans (SlotRun.single trivial
        (.fill hblank _)), (hF.withExec hT hrun.handed).fillPage hblank _, ?_⟩
      rintro _ ⟨⟩
      refine ⟨σ.alloc.validPage hnext, ?_⟩
      intro w' hw'
      have hkept : v'.word addr.pageKey = some w :=
        hrun.word_remote hv₁ (Nat.lt_succ_self _) hw hbit
      rw [SlotView.fill_word, hkept] at hw'
      cases hw'
      exact hbit
    · exact ⟨_, _, _, hread.trans hawait, fun _ => hcount, hrun', hF.withExec hT hrun.handed, by simp⟩

theorem faultWithoutPage (hF : Follows σ areas c v)
    (hmem : c.exec.allocated < σ.alloc.capacity) (vmaStart : UInt64) :
    ∃ v', SlotRun (fun _ => True) v v' ∧
      Follows σ areas (c.faultWithoutPage σ.alloc vmaStart).1 v' := by
  rcases hF.faultWithoutPage_cases hmem vmaStart with
    ⟨-, c', page, heq, -, hstep, hF'⟩ | ⟨-, heq⟩
  · rw [heq]
    exact ⟨_, SlotRun.single trivial hstep, hF'⟩
  · rw [heq]
    exact ⟨v, .refl, hF⟩

/-- A fault of a child built with prefetch returns and makes steps of the
view. -/
theorem handlePageFault {f : Features} (hf : f.prefetch = true)
    (hF : Follows σ areas c v) (hv : v.Inv) (fault : Fault)
    (hmem : c.exec.allocated + prefetchStep + 2 ≤ σ.alloc.capacity) (henv : env.Quiet σ) :
    ∃ c' r v', c.handlePageFault f σ.alloc fault env = .ok (c', r) ∧
      SlotRun (fun _ => True) v v' ∧ Follows σ areas c' v' := by
  unfold Child.handlePageFault
  rw [hF.lookupPgTable_eq]
  cases hw : v.word fault.address.pageKey with
  | none =>
    obtain ⟨v', hrun, hF'⟩ := hF.faultWithoutPage (by omega) fault.vmaStart
    exact ⟨_, _, v', rfl, hrun, hF'⟩
  | some w =>
    dsimp only
    split
    · rcases hF.cachedPage_cases (by omega) w with
        heq | ⟨c', page, content, -, heq, ha, hfill, hF'⟩
      · rw [heq]
        exact ⟨_, _, v, rfl, .refl, hF⟩
      · rw [heq]
        exact ⟨_, _, _, rfl,
          (SlotRun.single trivial ha).trans (SlotRun.single trivial hfill), hF'⟩
    · obtain ⟨c', r, v', hread, hcount, hrun, hF', hinstall⟩ :=
        hF.readRemotePagePrefetch hv hw (by omega) henv
      rw [Child.readPage, if_pos hf, hread]
      cases r with
      | none =>
        have hle := hcount rfl
        obtain ⟨v'', hrun', hF''⟩ := hF'.faultWithoutPage (by omega) fault.vmaStart
        exact ⟨_, _, v'', rfl, hrun.trans hrun', hF''⟩
      | some page =>
        obtain ⟨hpage, hold⟩ := hinstall page rfl
        cases hcache : f.pageCache with
        | false => exact ⟨c', .installed page, v', rfl, hrun, hF'⟩
        | true =>
          obtain ⟨pt, idx, -, hs⟩ := hF.findL1PageIdx_of_word hw
          obtain ⟨w', -, hstep, hF''⟩ := hF'.cachePage hs.node hpage hold
          exact ⟨c'.cachePage fault.address page, .installed page, _, rfl,
            hrun.trans (SlotRun.single trivial hstep), hF''⟩

end Follows

/-! ## A resumed child -/

/-- A child that has not faulted yet: its table has words with the lowest bit
clear, and nothing was read ahead. -/
structure Resumed (c : Child) : Prop where
  wellFormed : WellFormed c.exec.heap c.root
  remote : ∀ addr w, c.lookupPgTable addr = some w → PhysAddr.bottomBit w = false
  pending : c.exec.prefetcher.pendingQueues = []
  outstanding : c.exec.prefetcher.conn.cq.outstanding = []
  issued : c.exec.issued = []
  handed : c.handed = []

/-- The setup of the runs from a child. -/
def Child.setup (c : Child) (alloc : PageAllocator) (status : WCStatus → Prop)
    (success : status .success) : Setup where
  alloc := alloc
  status := status
  success := success
  root := c.root
  node := nodeAt c.exec.heap c.root 3

/-- The view of a child that has read nothing ahead. -/
def Child.view (c : Child) (holder : ℕ → Holder) : SlotView where
  word := nodeAt c.exec.heap c.root 4
  queue := []
  contents := c.exec.contents
  holder := holder
  handed := []

namespace Resumed

variable {c : Child} {holder : ℕ → Holder}

theorem view_word_remote (h : Resumed c) {k : ℕ} {w : PhysAddr}
    (hw : (c.view holder).word k = some w) : PhysAddr.bottomBit w = false :=
  h.remote (VirtAddr.ofPageKey k) w (translate_of_nodeAt hw)

theorem inv (h : Resumed c) (hplain : ∀ p, ¬ (holder p).Prefetched)
    (hvalid : ∀ p, holder p ≠ .nobody → ValidPage p) : (c.view holder).Inv := by
  have hne : ∀ p h, Holder.Prefetched h → holder p ≠ h := by
    rintro p h hh rfl
    exact hplain p hh
  constructor
  case valid => exact hvalid
  case slotsNodup => exact List.nodup_nil
  case marked =>
    intro k
    refine iff_of_false (fun hk => ?_) List.not_mem_nil
    have hremote := h.view_word_remote hk
    rw [bottomBit_magic] at hremote
    cases hremote
  case pagesNodup => exact List.nodup_nil
  case fetching => exact fun p => iff_of_false (hne p .fetch trivial) List.not_mem_nil
  case localPage =>
    intro k w hk hbit _
    rw [h.view_word_remote hk] at hbit
    cases hbit
  case inSlot => exact fun p k hp => absurd hp (hne p (.slot k) trivial)
  case handedNodup => exact List.nodup_nil
  case handedOut => exact fun p => iff_of_false (hne p .process trivial) List.not_mem_nil

theorem follows (h : Resumed c) (alloc : PageAllocator) {status : WCStatus → Prop}
    (success : status .success) (hplain : ∀ p, ¬ (holder p).Prefetched)
    (hfresh : ∀ n, c.exec.allocated ≤ n → n < alloc.capacity →
      holder (alloc.page n) = .nobody) :
    Follows (c.setup alloc status success) c.descriptor.vma c (c.view holder) where
  root := rfl
  areas := rfl
  exec := by
    have hcompleted : c.exec.prefetcher.conn.cq.completed = [] :=
      List.map_eq_nil_iff.mp (List.append_eq_nil_iff.mp h.outstanding).1
    constructor
    case table => exact ⟨h.wellFormed, fun _ => rfl, fun _ => rfl⟩
    case pending =>
      rw [h.pending]
      exact .nil
    case reads =>
      rw [h.outstanding]
      rfl
    case statuses =>
      rw [hcompleted]
      simp
    case contents => rfl
    case issued =>
      intro p
      rw [h.issued]
      exact iff_of_false List.not_mem_nil (hplain p)
    case fresh => exact hfresh
  handed := h.handed

end Resumed

theorem words_of_calls {P : PhysAddr → Prop} {calls : List MapCall}
    (hcalls : ∀ call ∈ calls, P call.word) (h : Heap) :
    let s := tableMachine.run (RemotePageTable.new h) calls
    WellFormed s.1 s.2.l4PageTable ∧ ∀ addr w, s.2.translate s.1 addr = some w → P w := by
  have hassigned : ∀ {h h' : Heap} {t t' : RemotePageTable} {slot : ℕ} {w : PhysAddr},
      Assigned h h' t.l4PageTable slot w → t'.l4PageTable = t.l4PageTable → P w →
      (∀ addr w, t.translate h addr = some w → P w) →
      ∀ addr w, t'.translate h' addr = some w → P w := by
    intro h h' t t' slot w ha ht hP hwords addr w' hw'
    rw [translate_eq, ht, ha.words] at hw'
    split_ifs at hw' with hslot hzero
    · cases hw'
      exact hP
    · rw [← translate_eq] at hw'
      exact hwords addr w' hw'
  refine Machine.invariant 
    (fun s : Heap × RemotePageTable => WellFormed s.1 s.2.l4PageTable ∧
      ∀ addr w, s.2.translate s.1 addr = some w → P w)
    ?_ ⟨wellFormed_new h, ?_⟩ (Machine.always_of_forall_mem hcalls _)
  · rintro ⟨h, t⟩ call ⟨hw, hwords⟩ hcall
    refine ⟨tableMachine_wellFormed hw call, ?_⟩
    cases call with
    | map a w =>
      simp only [tableMachine]
      cases htr : t.translate h a with
      | some w₀ =>
        rw [map_of_present hw htr]
        exact hwords
      | none =>
        obtain ⟨-, hroot, -, ha⟩ := map_of_absent hw htr w
        exact hassigned ha hroot hcall hwords
    | forceMap a w =>
      obtain ⟨hroot, -, ha⟩ := forceMap_spec (a := a) hw w
      exact hassigned ha hroot hcall hwords
  · intro addr w hword
    rw [translate_eq, nodeAt_new] at hword
    cases hword

/-- A child resumes with any table built from words with the lowest bit clear. -/
theorem resumed_of_calls {calls : List MapCall}
    (hcalls : ∀ call ∈ calls, PhysAddr.bottomBit call.word = false) (h : Heap)
    (d : ChildDescriptor) (info : AccessInfo) :
    let s := tableMachine.run (RemotePageTable.new h) calls
    Resumed (Child.resume s.1 { d with pageTable := s.2 } info) := by
  intro s
  obtain ⟨hw, hwords⟩ :=
    words_of_calls (P := fun w => PhysAddr.bottomBit w = false) hcalls h
  exact ⟨hw, hwords, rfl, rfl, rfl, rfl⟩

end Mitosis.PageFault
