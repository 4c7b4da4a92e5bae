import Mitosis.Prefetcher.Slots

/-!
# The executor takes the steps of the slot view

`Tracks` relates an executor with its heap, pending entries and queue pair to
the slot view.  Each function of the executor, from related states, makes steps
of the view and ends in related states, so what holds of the view along its
runs holds of the executor.
-/

namespace Mitosis.Prefetcher

open Mitosis.OsNetwork
open Mitosis.RemoteMapping
open Mitosis.Support (CompletionQueue)

/-! ## The relation -/

/-- What stays the same in a run: the allocator, the statuses that completions
can have, the root of the table and its level-one nodes. -/
structure Setup where
  alloc : PageAllocator
  status : WCStatus → Prop
  success : status .success
  root : Ptr
  node : ℕ → Option Ptr

/-- The level-one node and index where a slot lies. -/
structure Setup.SlotAt (σ : Setup) (pt : Ptr) (idx : PageTableIndex) (slot : ℕ) :
    Prop where
  node : σ.node (slot / 512) = some pt
  index : PageTableIndex.newTruncate slot = idx

variable {pt : Ptr} {slot : ℕ}

variable {σ : Setup} {idx : PageTableIndex}

theorem Setup.SlotAt.slot_eq (hs : σ.SlotAt pt idx slot) : 512 * (slot / 512) + idx.val = slot := by
  rw [← hs.index, newTruncate_val]
  exact Nat.div_add_mod slot 512

/-- The table in the heap has the given words. -/
structure HasWords (σ : Setup) (h : Heap) (word : ℕ → Option PhysAddr) : Prop where
  wellFormed : WellFormed h σ.root
  nodes : ∀ key, nodeAt h σ.root 3 key = σ.node key
  words : ∀ k, nodeAt h σ.root 4 k = word k

namespace HasWords

variable {σ : Setup} {h : Heap} {word : ℕ → Option PhysAddr} {pt : Ptr}
  {idx : PageTableIndex} {slot slot' : ℕ}

variable {w : PhysAddr}

theorem slot_unique (hh : HasWords σ h word) (hs : σ.SlotAt pt idx slot)
    (hs' : σ.SlotAt pt idx slot') : slot = slot' := by
  have hkey := hh.wellFormed.toLinked.key_eq le_rfl ((hh.nodes _).trans hs.node)
    ((hh.nodes _).trans hs'.node)
  rw [← hs.slot_eq, ← hs'.slot_eq, hkey]

theorem word_eq (hh : HasWords σ h word) (hs : σ.SlotAt pt idx slot) :
    word slot = lookupTable h idx pt := by
  rw [← hh.words, nodeAt_succ, hh.nodes, hs.node, hs.index, Option.bind_some]

theorem entries_eq (hh : HasWords σ h word) (hs : σ.SlotAt pt idx slot)
    (hw : word slot = some w) : (h.node pt).entries idx = w := by
  rw [hh.word_eq hs] at hw
  exact (lookupTable_eq_some.mp hw).1

theorem entries_eq_iff (hh : HasWords σ h word) (hs : σ.SlotAt pt idx slot)
    (hw : w ≠ 0) : (h.node pt).entries idx = w ↔ word slot = some w := by
  rw [hh.word_eq hs, lookupTable_eq_some]
  exact (and_iff_left hw).symm

theorem slotAt_biUnique (hh : HasWords σ h word) :
    Relator.BiUnique fun (q : Ptr × PageTableIndex) slot => σ.SlotAt q.1 q.2 slot := by
  constructor
  · intro q q' slot hs hs'
    have hnode := Option.some.inj (hs.node.symm.trans hs'.node)
    exact Prod.ext hnode (hs.index.symm.trans hs'.index)
  · intro q slot slot' hs hs'
    exact hh.slot_unique hs hs'

theorem exists_slotAt (hh : HasWords σ h word) (hw : word slot = some w) :
    ∃ pt, σ.SlotAt pt (.newTruncate slot) slot := by
  obtain ⟨pt, hpt, -⟩ := nodeAt_succ_eq_some.mp ((hh.words slot).trans hw)
  exact ⟨pt, (hh.nodes _).symm.trans hpt, rfl⟩

theorem setEntry (hh : HasWords σ h word) (hs : σ.SlotAt pt idx slot) (w : ℕ) :
    HasWords σ (h.setEntry pt idx w)
      (Function.update word slot (if w = 0 then none else some w)) := by
  have hl := hh.wellFormed.toLinked
  have hnode := (hh.nodes (slot / 512)).trans hs.node
  constructor
  case wellFormed => exact hh.wellFormed.setEntry_levelOne hnode idx w
  case nodes =>
    intro key
    rw [nodeAt_setEntry_levelOne hl hnode idx w le_rfl, hh.nodes]
  case words =>
    intro k
    rw [nodeAt_four_setEntry hl hnode, hs.slot_eq, hh.words, Function.update_apply]

theorem forceMap_eq (hh : HasWords σ h word) {t : RemotePageTable} {a : VirtAddr}
    (ht : t.l4PageTable = σ.root) (hpt : σ.node (a.pageKey / 512) = some pt) (w : PhysAddr) :
    (t.forceMap h a w).1 = h.setEntry pt (.newTruncate a.pageKey) w := by
  have hwf := hh.wellFormed
  have hnode := (hh.nodes (a.pageKey / 512)).trans hpt
  rw [← ht] at hwf hnode
  exact forceMap_of_levelOne hwf hnode w

end HasWords

/-- A pending entry stands for a READ under way. -/
structure Denotes (σ : Setup) (e : ReplyEntry) (f : Fetch) : Prop where
  slot : σ.SlotAt e.pt e.idx f.slot
  page : e.userPage = f.page

/-- The executor is in the state that the view shows: the table has its words,
pending entries and outstanding READs are its queue, and it knows every page. -/
structure Tracks (σ : Setup) (x : Executor) (v : SlotView) : Prop where
  table : HasWords σ x.heap v.word
  pending : List.Forall₂ (Denotes σ) x.prefetcher.pendingQueues v.queue
  reads : x.prefetcher.conn.cq.outstanding.map (fun r => (r.laddr, r.raddr)) =
    v.queue.map fun f => (f.page, f.raddr)
  statuses : ∀ wc ∈ x.prefetcher.conn.cq.completed, σ.status wc.2
  contents : x.contents = v.contents
  issued : ∀ p, p ∈ x.issued ↔ (v.holder p).Prefetched
  fresh : ∀ n, x.allocated ≤ n → n < σ.alloc.capacity →
    v.holder (σ.alloc.page n) = .nobody

variable {n : ℕ}

theorem PageAllocator.validPage (alloc : PageAllocator) (hn : n < alloc.capacity) :
    ValidPage (alloc.page n) where
  aligned := alloc.aligned n hn
  ne_null := alloc.ne_null n hn
  fits := alloc.fits n hn

namespace Tracks

variable {σ : Setup} {x : Executor} {v : SlotView}

theorem places (hT : Tracks σ x v) :
    List.Forall₂ (fun (q : Ptr × PageTableIndex) slot => σ.SlotAt q.1 q.2 slot)
      (x.prefetcher.pendingQueues.map fun e => (e.pt, e.idx)) (v.queue.map Fetch.slot) := by
  rw [List.forall₂_map_left_iff, List.forall₂_map_right_iff]
  exact hT.pending.imp fun _ _ hd => hd.slot

theorem userPages (hT : Tracks σ x v) :
    x.prefetcher.pendingQueues.map ReplyEntry.userPage = v.queue.map Fetch.page := by
  rw [← List.forall₂_eq_eq_eq, List.forall₂_map_left_iff, List.forall₂_map_right_iff]
  exact hT.pending.imp fun _ _ hd => hd.page

theorem fresh_next (hT : Tracks σ x v) (hmem : x.allocated < σ.alloc.capacity) :
    v.holder (σ.alloc.page x.allocated) = .nobody :=
  hT.fresh x.allocated le_rfl hmem

theorem fresh_update (hT : Tracks σ x v) (hmem : x.allocated < σ.alloc.capacity)
    (h : Holder) :
    ∀ n, x.allocated + 1 ≤ n → n < σ.alloc.capacity →
      Function.update v.holder (σ.alloc.page x.allocated) h (σ.alloc.page n) = .nobody := by
  intro n hn hcap
  have hne : σ.alloc.page n ≠ σ.alloc.page x.allocated := by
    intro heq
    have hnn := σ.alloc.injective n x.allocated hcap hmem heq
    omega
  rw [Function.update_of_ne hne]
  exact hT.fresh n (by omega) hcap

theorem fresh_rehold (hT : Tracks σ x v) {page : ℕ} (hused : v.holder page ≠ .nobody)
    (h : Holder) :
    ∀ n, x.allocated ≤ n → n < σ.alloc.capacity →
      Function.update v.holder page h (σ.alloc.page n) = .nobody := by
  intro n hn hcap
  have hnobody := hT.fresh n hn hcap
  have hne : σ.alloc.page n ≠ page := by
    rintro rfl
    exact hused hnobody
  rw [Function.update_of_ne hne]
  exact hnobody

/-! ## Issuing READs -/

variable {req : PageEntry} {w : PhysAddr}

theorem executeReq_of_local (hT : Tracks σ x v) (hs : σ.SlotAt req.page req.index slot)
    (hw : v.word slot = some w) (hlocal : PhysAddr.bottomBit w = true) :
    Executor.executeReq σ.alloc x req = x := by
  unfold Executor.executeReq
  rw [hT.table.entries_eq hs hw]
  exact if_pos hlocal

theorem executeReq_of_remote (hT : Tracks σ x v) (hmem : x.allocated < σ.alloc.capacity)
    (hs : σ.SlotAt req.page req.index slot)
    (hw : v.word slot = some w) (hremote : PhysAddr.bottomBit w = false) :
    Tracks σ (Executor.executeReq σ.alloc x req)
      (v.issue slot (σ.alloc.page x.allocated) w) := by
  unfold Executor.executeReq
  rw [hT.table.entries_eq hs hw]
  simp only [hremote, Bool.false_eq_true, if_false, Executor.allocPage]
  constructor
  case table => exact hT.table.setEntry hs kMagicInPrefetch
  case pending =>
    have hnew : Denotes σ ⟨req.page, req.index, σ.alloc.page x.allocated⟩
        ⟨slot, σ.alloc.page x.allocated, PhysAddr.realAddr w⟩ := ⟨hs, rfl⟩
    exact List.rel_append hT.pending (.cons hnew .nil)
  case reads =>
    simp only [Conn.post, CompletionQueue.outstanding_post, List.map_append, hT.reads,
      SlotView.issue_queue, List.map_cons, List.map_nil]
  case statuses => exact hT.statuses
  case contents =>
    exact congrArg (Function.update · (σ.alloc.page x.allocated) .unfilled) hT.contents
  case issued =>
    intro p
    by_cases hp : p = σ.alloc.page x.allocated
    · simp [hp, Holder.Prefetched]
    · simpa [hp] using hT.issued p
  case fresh => exact hT.fresh_update hmem .fetch

end Tracks

/-- READs are issued for slots from `start` on whose words satisfy `R`. -/
def SlotEvent.IssuesFrom (start : ℕ) (R : PhysAddr → Prop) : SlotEvent → Prop
  | issue slot _ w => start ≤ slot ∧ R w
  | _ => False

/-- A READ with a status in `S` is polled. -/
def SlotEvent.Settles (S : WCStatus → Prop) : SlotEvent → Prop
  | settle status => S status
  | _ => False

/-- The steps made while a fault waits for its own READ. -/
def SlotEvent.Prefetches (start : ℕ) (R : PhysAddr → Prop) (S : WCStatus → Prop)
    (e : SlotEvent) : Prop :=
  e.IssuesFrom start R ∨ e.Settles S

namespace SlotRun

variable {start : ℕ} {R : PhysAddr → Prop} {S : WCStatus → Prop} {v v' : SlotView}

variable {k : ℕ}

theorem word_remote (hrun : SlotRun (SlotEvent.Prefetches start R S) v v') (hv : v.Inv)
    {w : PhysAddr} (hk : k < start) (hw : v.word k = some w)
    (hremote : PhysAddr.bottomBit w = false) : v'.word k = some w := by
  refine (hrun.invariant (I := fun v => v.Inv ∧ v.word k = some w) ?_ ⟨hv, hw⟩).2
  rintro v e v' he hs ⟨hv, hw⟩
  refine ⟨hv.step hs, ?_⟩
  rcases he with he | he
  · cases hs with
    | @issue slot page w' hword _ _ _ =>
      have hne : k ≠ slot := (hk.trans_le he.1).ne
      simpa [hne] using hw
    | _ => exact he.elim
  · cases hs with
    | @settle f rest hqueue status =>
      have hne : k ≠ f.slot := by
        rintro rfl
        rw [(hv.marked f.slot).mpr (by simp [hqueue])] at hw
        cases hw
        rw [bottomBit_magic] at hremote
        cases hremote
      simpa [hne] using hw
    | _ => exact he.elim

theorem word_local (hrun : SlotRun (SlotEvent.Settles S) v v') (hv : v.Inv)
    (hw : ∃ w, v.word k = some w ∧ PhysAddr.bottomBit w = true) :
    ∃ w, v'.word k = some w ∧ PhysAddr.bottomBit w = true := by
  refine (hrun.invariant (I := fun v => v.Inv ∧
    ∃ w, v.word k = some w ∧ PhysAddr.bottomBit w = true) ?_ ⟨hv, hw⟩).2
  rintro v e v' he hs ⟨hv, hw⟩
  refine ⟨hv.step hs, ?_⟩
  cases hs with
  | @settle f rest hqueue status =>
    have hfetch : v.holder f.page = .fetch := (hv.fetching f.page).mpr (by simp [hqueue])
    by_cases hk : k = f.slot
    · refine ⟨localWord f.page, by simp [hk], ?_⟩
      exact (hv.valid_of hfetch (by simp)).bottomBit_localWord
    · simpa [hk] using hw
  | _ => exact he.elim

theorem blank (hrun : SlotRun (SlotEvent.Prefetches start R S) v v') (hv : v.Inv)
    {p : ℕ} (hp : v.holder p = .blank) : v'.holder p = .blank := by
  refine (hrun.invariant (I := fun v => v.Inv ∧ v.holder p = .blank) ?_ ⟨hv, hp⟩).2
  rintro v e v' he hs ⟨hv, hp⟩
  refine ⟨hv.step hs, ?_⟩
  rcases he with he | he
  · cases hs with
    | @issue slot page w _ _ _ hfresh =>
      have hne : p ≠ page := by
        rintro rfl
        rw [hp] at hfresh
        cases hfresh
      simpa [hne] using hp
    | _ => exact he.elim
  · cases hs with
    | @settle f rest hqueue status =>
      have hne : p ≠ f.page := by
        rintro rfl
        rw [(hv.fetching f.page).mpr (by simp [hqueue])] at hp
        cases hp
      simpa [hne] using hp
    | _ => exact he.elim

theorem of_settles (hrun : SlotRun (SlotEvent.Settles S) v v') :
    SlotRun (SlotEvent.Prefetches start R S) v v' :=
  hrun.mono fun _ => Or.inr

theorem handed (hrun : SlotRun (SlotEvent.Prefetches start R S) v v') :
    v'.handed = v.handed := by
  refine hrun.invariant (I := fun u => u.handed = v.handed) ?_ rfl
  intro u e u' he hs hu
  cases hs with
  | issue _ _ _ _ => exact hu
  | settle _ _ => exact hu
  | _ => exact (or_self_iff.mp he).elim

theorem handed_of_settles (hrun : SlotRun (SlotEvent.Settles S) v v') :
    v'.handed = v.handed := by
  have hrun' : SlotRun (SlotEvent.Prefetches 0 (fun _ => True) S) v v' := hrun.of_settles
  exact hrun'.handed

end SlotRun

/-- A request names a slot from `start` on: it has the word the request was
made for, or an earlier request has marked it. -/
def Requested (σ : Setup) (word : ℕ → Option PhysAddr) (start : ℕ)
    (req : PageEntry) : Prop :=
  ∃ slot, start ≤ slot ∧ σ.SlotAt req.page req.index slot ∧
    (word slot = some req.addr ∨ word slot = some kMagicInPrefetch)

variable {iter : RemotePageTableIter}

theorem HasWords.requested_of_generateRequest {h : Heap}
    {word : ℕ → Option PhysAddr} {start : ℕ} (hh : HasWords σ h word)
    (hpos : Position h σ.root iter start) (n : ℕ) :
    ∃ reqs, StepPrefetcher.generateRequest h n iter = some reqs ∧ reqs.length ≤ n ∧
      ∀ req ∈ reqs, Requested σ word start req := by
  obtain ⟨slots, es, hslots, hentries, hgen⟩ :=
    StepPrefetcher.generateRequest_eq hh.wellFormed hpos
  refine ⟨_, hgen, List.length_take_le _ _, ?_⟩
  intro req hreq
  have hmem : req ∈ es := (List.mem_filter.mp (List.mem_of_mem_take hreq)).1
  obtain ⟨slot, hslot, hentry⟩ := exists_related hentries.flip hmem
  simp only [entryAt, Option.bind_eq_bind, Option.bind_eq_some_iff, Option.some.injEq]
    at hentry
  obtain ⟨pt, hpt, w, hw, rfl⟩ := hentry
  exact ⟨slot, ((hslots.mem slot).mp hslot).1,
    ⟨(hh.nodes _).symm.trans hpt, rfl⟩, Or.inl ((hh.words _).symm.trans hw)⟩

namespace Tracks

variable {σ : Setup} {x : Executor} {v : SlotView} {start : ℕ} {R : PhysAddr → Prop}

theorem executeReq (hT : Tracks σ x v) (hmem : x.allocated < σ.alloc.capacity)
    {req : PageEntry} (hreq : Requested σ v.word start req) (hR : R req.addr) :
    ∃ v', SlotRun (SlotEvent.IssuesFrom start R) v v' ∧
      Tracks σ (Executor.executeReq σ.alloc x req) v' ∧
      ∀ req', Requested σ v.word start req' → Requested σ v'.word start req' := by
  obtain ⟨slot, hstart, hs, hword⟩ := hreq
  have hw : ∃ w, v.word slot = some w ∧ (PhysAddr.bottomBit w = false → R w) := by
    rcases hword with hword | hword
    · exact ⟨_, hword, fun _ => hR⟩
    · exact ⟨_, hword, fun hbit => absurd hbit (by simp [bottomBit_magic])⟩
  obtain ⟨w, hw, hRw⟩ := hw
  cases hbit : PhysAddr.bottomBit w with
  | true =>
    rw [hT.executeReq_of_local hs hw hbit]
    exact ⟨v, Relation.ReflTransGen.refl, hT, fun _ h => h⟩
  | false =>
    have hstep := SlotStep.issue hw hbit (σ.alloc.validPage hmem) (hT.fresh_next hmem)
    have hissue : SlotEvent.IssuesFrom start R
        (.issue slot (σ.alloc.page x.allocated) w) := ⟨hstart, hRw hbit⟩
    refine ⟨_, SlotRun.single hissue hstep, hT.executeReq_of_remote hmem hs hw hbit, ?_⟩
    rintro req' ⟨slot', hstart', hs', hword'⟩
    refine ⟨slot', hstart', hs', ?_⟩
    by_cases hss : slot' = slot
    · simp [hss]
    · simpa [hss] using hword'

theorem foldl_executeReq {reqs : List PageEntry} (hT : Tracks σ x v)
    (hmem : x.allocated + reqs.length ≤ σ.alloc.capacity)
    (hreqs : ∀ req ∈ reqs, Requested σ v.word start req)
    (hR : ∀ req ∈ reqs, R req.addr) :
    ∃ v', SlotRun (SlotEvent.IssuesFrom start R) v v' ∧
      Tracks σ (reqs.foldl (Executor.executeReq σ.alloc) x) v' := by
  induction reqs generalizing x v with
  | nil => exact ⟨v, Relation.ReflTransGen.refl, hT⟩
  | cons req reqs ih =>
    rw [List.length_cons] at hmem
    obtain ⟨v₁, hrun₁, hT₁, hkeep⟩ :=
      hT.executeReq (by omega) (hreqs req List.mem_cons_self) (hR req List.mem_cons_self)
    have hone := Executor.allocated_executeReq_le σ.alloc x req
    obtain ⟨v₂, hrun₂, hT₂⟩ := ih hT₁ (by omega)
      (fun req' hreq' => hkeep req' (hreqs req' (List.mem_cons_of_mem _ hreq')))
      (fun req' hreq' => hR req' (List.mem_cons_of_mem _ hreq'))
    exact ⟨v₂, hrun₁.trans hrun₂, hT₂⟩

/-- `execute_reqs` ends and only issues READs behind its position. -/
theorem executeReqs (hT : Tracks σ x v)
    (hpos : Position x.heap σ.root iter start)
    (hmem : x.allocated + n ≤ σ.alloc.capacity)
    (hR : ∀ reqs, StepPrefetcher.generateRequest x.heap n iter = some reqs →
      ∀ req ∈ reqs, R req.addr) :
    ∃ x' v', Executor.executeReqs σ.alloc x n iter = .ok x' ∧
      x'.allocated ≤ x.allocated + n ∧
      SlotRun (SlotEvent.IssuesFrom start R) v v' ∧ Tracks σ x' v' := by
  obtain ⟨reqs, hgen, hlen, hreqs⟩ := hT.table.requested_of_generateRequest hpos n
  obtain ⟨v', hrun, hT'⟩ := hT.foldl_executeReq (by omega) hreqs (hR reqs hgen)
  have hcount := Executor.allocated_foldl_executeReq_le σ.alloc reqs x
  refine ⟨_, v', ?_, hcount.trans (by omega), hrun, hT'⟩
  rw [Executor.executeReqs, hgen]

/-! ## Polling -/

variable {arrivals : List WCStatus}

theorem statuses_completeAll (hT : Tracks σ x v)
    (harr : ∀ st ∈ arrivals, σ.status st) :
    ∀ wc ∈ (x.prefetcher.conn.cq.completeAll arrivals).completed, σ.status wc.2 := by
  intro wc hwc
  rcases CompletionQueue.mem_completed_completeAll hwc with hold | hnew
  · exact hT.statuses wc hold
  · exact harr wc.2 hnew

theorem arrive (hT : Tracks σ x v)
    (harr : ∀ st ∈ arrivals, σ.status st) :
    Tracks σ
      { x with prefetcher := { x.prefetcher with
          conn := { x.prefetcher.conn with
            cq := x.prefetcher.conn.cq.completeAll arrivals } } } v where
  table := hT.table
  pending := hT.pending
  reads := by
    rw [CompletionQueue.outstanding_completeAll]
    exact hT.reads
  statuses := hT.statuses_completeAll harr
  contents := hT.contents
  issued := hT.issued
  fresh := hT.fresh

theorem settle (hT : Tracks σ x v) {e : ReplyEntry} {es : List ReplyEntry}
    {f : Fetch} {rest : List Fetch} {wc : WorkCompletion}
    {cq : CompletionQueue ReadRequest WCStatus}
    (hpending : x.prefetcher.pendingQueues = e :: es) (hqueue : v.queue = f :: rest)
    (hout : x.prefetcher.conn.cq.outstanding = wc.1 :: cq.outstanding)
    (hstatuses : ∀ wc ∈ cq.completed, σ.status wc.2)
    (hpage : ValidPage f.page) (hholder : v.holder f.page = .fetch) :
    Tracks σ
      { x with
        heap := x.heap.setEntry e.pt e.idx
          (PhysAddr.encode e.userPage PhysAddrBitFlag.prefetch.bits)
        prefetcher := ⟨{ x.prefetcher.conn with cq := cq }, es, x.prefetcher.accessInfo⟩
        contents := fillPage x.contents wc }
      (v.settle f rest wc.2) := by
  have hall := hT.pending
  rw [hpending, hqueue] at hall
  obtain ⟨hd, htail⟩ := List.forall₂_cons.mp hall
  have hreads := hT.reads
  rw [hout, hqueue, List.map_cons, List.map_cons, List.cons.injEq, Prod.mk.injEq] at hreads
  obtain ⟨⟨hladdr, hraddr⟩, hreads⟩ := hreads
  have hword : PhysAddr.encode e.userPage PhysAddrBitFlag.prefetch.bits = localWord f.page := by
    rw [hd.page, localWord]
  have hne : localWord f.page ≠ 0 := by
    rw [hpage.localWord_eq]
    exact Nat.succ_ne_zero _
  rw [hword]
  constructor
  case table =>
    have htable := hT.table.setEntry hd.slot (localWord f.page)
    rwa [if_neg hne] at htable
  case pending => exact htail
  case reads => exact hreads
  case statuses => exact hstatuses
  case contents =>
    simp only [fillPage, hT.contents, hladdr, hraddr]
    rfl
  case issued =>
    intro p
    by_cases hp : p = f.page
    · simpa [hp, hholder, Holder.Prefetched] using hT.issued f.page
    · simpa [hp] using hT.issued p
  case fresh => exact hT.fresh_rehold (by simp [hholder]) (.slot f.slot)

/-- A poll of the prefetcher fails with the connection, finds nothing, or
settles the oldest READ: there is an entry for every completion. -/
theorem poll_cases (hT : Tracks σ x v) (hv : v.Inv) {e : CqEvent}
    (harr : ∀ st ∈ e.arrivals, σ.status st) :
    (∃ x' err, e.pollError = some err ∧ x.poll e = (x', .error (.driver err)) ∧
      Tracks σ x' v) ∨
    (∃ x', (x.prefetcher.conn.cq.completeAll e.arrivals).completed = [] ∧
      x.poll e = (x', .ok .notReady) ∧ Tracks σ x' v) ∨
    (∃ x' f rest status, σ.status status ∧ v.queue = f :: rest ∧
      x.poll e = (x', .ok (.ready f.page)) ∧
      Tracks σ x' (v.settle f rest status)) := by
  rcases Conn.poll_cases x.prefetcher.conn e with
    ⟨err, herr, hp⟩ | ⟨hnil, hp⟩ | ⟨wc, cq', hc, hout, hp⟩
  · refine Or.inl ⟨_, err, herr, ?_, hT.arrive harr⟩
    rw [Executor.poll, hp]
  · refine Or.inr (Or.inl ⟨_, hnil, ?_, hT.arrive harr⟩)
    rw [Executor.poll, hp]
  · have hstatuses := hT.statuses_completeAll harr
    rw [hc] at hstatuses
    -- the READs outstanding and the entries are both the queue of the view
    have hreads := hT.reads
    rw [hout] at hreads
    have hpending := hT.pending
    obtain ⟨f, rest, hqueue⟩ : ∃ f rest, v.queue = f :: rest := by
      cases hq : v.queue with
      | nil => simp [hq] at hreads
      | cons f rest => exact ⟨f, rest, rfl⟩
    rw [hqueue] at hpending
    obtain ⟨e', es, hd, -, hentries⟩ := List.forall₂_cons_right_iff.mp hpending
    have hholder : v.holder f.page = .fetch := (hv.fetching f.page).mpr (by simp [hqueue])
    have hpage : ValidPage f.page := hv.valid_of hholder (by simp)
    have heven : PhysAddr.bottomBit f.page = false := by
      have haligned := hpage.aligned
      exact (PhysAddr.isPrefetch_eq_false_iff _).mpr (by omega)
    refine Or.inr (Or.inr ⟨_, f, rest, wc.2, hstatuses wc List.mem_cons_self, hqueue, ?_,
      hT.settle hentries hqueue hout
        (fun wc' hwc' => hstatuses wc' (List.mem_cons_of_mem _ hwc')) hpage hholder⟩)
    rw [Executor.poll, hp, hentries]
    simp only [heven, Bool.false_eq_true, if_false, hd.page]

theorem queue_eq_nil (hT : Tracks σ x v)
    (harr : arrivals.length = x.prefetcher.conn.cq.inFlight.length)
    (hnil : (x.prefetcher.conn.cq.completeAll arrivals).completed = []) :
    v.queue = [] := by
  have hout : x.prefetcher.conn.cq.outstanding = [] := by
    rw [← CompletionQueue.outstanding_completeAll _ arrivals, CompletionQueue.outstanding,
      hnil, CompletionQueue.inFlight_completeAll, harr, List.drop_length]
    rfl
  have hreads := hT.reads
  rw [hout, List.map_nil] at hreads
  exact List.map_eq_nil_iff.mp hreads.symm

end Tracks

/-- The completions that a schedule brings have statuses in `S`. -/
def Arriving (S : WCStatus → Prop) (es : List CqEvent) : Prop :=
  ∀ e ∈ es, ∀ st ∈ e.arrivals, S st

variable {S : WCStatus → Prop} {es : List CqEvent}

theorem nextEvent_rest (conn : QueuePair) (es : List CqEvent) :
    (nextEvent conn es).2 = es.tail := by
  cases es with
  | nil => rfl
  | cons e es => rfl

theorem Arriving.tail (hes : Arriving S es) :
    Arriving S es.tail :=
  fun e he => hes e (List.mem_of_mem_tail he)

theorem Arriving.nextEvent (hS : S .success)
    (hes : Arriving S es) (conn : QueuePair) :
    ∀ st ∈ (nextEvent conn es).1.arrivals, S st := by
  cases es with
  | nil =>
    intro st hst
    obtain ⟨-, -, rfl⟩ := List.mem_map.mp hst
    exact hS
  | cons e es => exact hes e List.mem_cons_self

namespace Tracks

variable {σ : Setup} {x : Executor} {v : SlotView} {es : List CqEvent}

theorem pendingQueues_isEmpty (hT : Tracks σ x v) :
    x.prefetcher.pendingQueues.isEmpty = true ↔ v.queue = [] := by
  rw [List.isEmpty_iff, ← List.length_eq_zero_iff, ← List.length_eq_zero_iff,
    hT.pending.length_eq]

theorem queue_eq_nil_of_idle (hT : Tracks σ x v)
    (hnil : (x.prefetcher.conn.cq.completeAll
      (nextEvent x.prefetcher.conn []).1.arrivals).completed = []) : v.queue = [] :=
  hT.queue_eq_nil (List.length_map _) hnil

/-- `drain_connections` ends, and it returns `Ok` only when no READ is left. -/
theorem drainLoop {bound : ℕ} (hT : Tracks σ x v)
    (hv : v.Inv) (hes : Arriving σ.status es) (hbound : es.length + v.queue.length < bound) :
    ∃ x' r v', Executor.drainLoop bound x es = .ok (x', r) ∧
      SlotRun (SlotEvent.Settles σ.status) v v' ∧ Tracks σ x' v' ∧
      (r = .ok () → v'.queue = []) := by
  induction bound generalizing x v es with
  | zero => omega
  | succ bound ih =>
    unfold Executor.drainLoop
    by_cases hempty : x.prefetcher.pendingQueues.isEmpty = true
    · rw [if_pos hempty]
      exact ⟨x, .ok (), v, rfl, .refl, hT, fun _ => hT.pendingQueues_isEmpty.mp hempty⟩
    have hqueue : v.queue ≠ [] := fun h => hempty (hT.pendingQueues_isEmpty.mpr h)
    have hrest := nextEvent_rest x.prefetcher.conn es
    rw [if_neg hempty, hrest]
    rcases hT.poll_cases hv (hes.nextEvent σ.success x.prefetcher.conn) with
      ⟨x', err, -, hp, hT'⟩ | ⟨x', hnil, hp, hT'⟩ | ⟨x', f, rest, status, hst, hq, hp, hT'⟩
    · rw [hp]
      exact ⟨x', .error err, v, rfl, .refl, hT', by simp⟩
    · rw [hp]
      -- an idle poll uses up an event of the schedule
      have hlen : es.tail.length + v.queue.length < bound := by
        cases es with
        | nil => exact absurd (hT.queue_eq_nil_of_idle hnil) hqueue
        | cons e es =>
          simp only [List.length_cons, List.tail_cons] at hbound ⊢
          omega
      exact ih hT' hv hes.tail hlen
    · rw [hp]
      have hstep := SlotStep.settle hq status
      have hlen : es.tail.length + rest.length < bound := by
        have htail := List.length_tail (l := es)
        rw [hq, List.length_cons] at hbound
        omega
      obtain ⟨x'', r, v'', hdrain, hrun, hT'', hr⟩ :=
        ih hT' (hv.settle hq status) hes.tail hlen
      have hsettles : SlotEvent.Settles σ.status (.settle status) := hst
      exact ⟨x'', r, v'', hdrain, (SlotRun.single hsettles hstep).trans hrun, hT'', hr⟩

theorem drainConnections (hT : Tracks σ x v)
    (hv : v.Inv) (hes : Arriving σ.status es) :
    ∃ x' r v', x.drainConnections es = .ok (x', r) ∧
      SlotRun (SlotEvent.Settles σ.status) v v' ∧ Tracks σ x' v' ∧
      (r = .ok () → v'.queue = []) := by
  apply hT.drainLoop hv hes
  rw [hT.pending.length_eq]
  exact Nat.lt_succ_self _

/-! ## The steps of the fault handler -/

theorem allocPage (hT : Tracks σ x v) (hmem : x.allocated < σ.alloc.capacity) :
    Tracks σ (x.allocPage σ.alloc).1 (v.alloc (σ.alloc.page x.allocated)) where
  table := hT.table
  pending := hT.pending
  reads := hT.reads
  statuses := hT.statuses
  contents := by
    change Function.update x.contents _ _ = Function.update v.contents _ _
    rw [hT.contents]
  issued p := by
    by_cases hp : p = σ.alloc.page x.allocated
    · have hnot := hT.issued (σ.alloc.page x.allocated)
      rw [hT.fresh_next hmem] at hnot
      simpa [hp, Executor.allocPage, Holder.Prefetched] using hnot
    · simpa [hp, Executor.allocPage] using hT.issued p
  fresh := hT.fresh_update hmem .blank

theorem fill (hT : Tracks σ x v) {page : ℕ} (hblank : v.holder page = .blank)
    (content : PageContent) :
    Tracks σ { x with contents := Function.update x.contents page content }
      (v.fill page content) where
  table := hT.table
  pending := hT.pending
  reads := hT.reads
  statuses := hT.statuses
  contents := congrArg (Function.update · page content) hT.contents
  issued p := by
    by_cases hp : p = page
    · have hnot := hT.issued page
      rw [hblank] at hnot
      simpa [hp, Holder.Prefetched] using hnot
    · simpa [hp] using hT.issued p
  fresh := hT.fresh_rehold (by simp [hblank]) .filled

theorem hand (hT : Tracks σ x v) {slot page : ℕ}
    (hs : σ.SlotAt pt idx slot) (hpage : v.holder page = .slot slot) :
    Tracks σ { x with heap := x.heap.setEntry pt idx 0 } (v.hand slot page) where
  table := hT.table.setEntry hs 0
  pending := hT.pending
  reads := hT.reads
  statuses := hT.statuses
  contents := hT.contents
  issued p := by
    by_cases hp : p = page
    · have hissued := hT.issued page
      rw [hpage] at hissued
      simpa [hp, Holder.Prefetched] using hissued
    · simpa [hp] using hT.issued p
  fresh := hT.fresh_rehold (by simp [hpage]) .process

theorem forceMap (hT : Tracks σ x v) {t : RemotePageTable} {a : VirtAddr}
    {w : PhysAddr} (ht : t.l4PageTable = σ.root) (hpt : σ.node (a.pageKey / 512) = some pt)
    (hw : w ≠ 0) :
    Tracks σ { x with heap := (t.forceMap x.heap a w).1 } (v.assign a.pageKey w) := by
  have hs : σ.SlotAt pt (.newTruncate a.pageKey) a.pageKey := ⟨hpt, rfl⟩
  rw [hT.table.forceMap_eq ht hpt]
  have htable := hT.table.setEntry hs w
  rw [if_neg hw] at htable
  exact ⟨htable, hT.pending, hT.reads, hT.statuses, hT.contents, hT.issued, hT.fresh⟩

end Tracks

end Mitosis.Prefetcher
