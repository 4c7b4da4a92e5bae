import Mitosis.Prefetcher.Executor
import Mitosis.RemoteMapping.SlotOrder

/-!
# What a call of `execute_reqs` posts

The requests of a strategy are entries of distinct slots, as they stood when
the iterator passed them.  Marking one slot leaves the others as they are, so
the executor meets each of them unchanged, although it changes the table on its
way.
-/

namespace Mitosis.Prefetcher

open Mitosis.OsNetwork
open Mitosis.RemoteMapping
open Mitosis.Support (CompletionQueue)

def place (e : PageEntry) : Ptr × PageTableIndex := (e.page, e.index)

namespace Executor

/-- `execute_reqs` with any strategy. -/
def executeStrategy (alloc : PageAllocator) (x : Executor) (s : Strategy)
    (iter : RemotePageTableIter) : Except Halt Executor :=
  match s.generateRequest x.heap iter with
  | none => .error .unfinished
  | some reqs => .ok (reqs.foldl (executeReq alloc) x)

theorem executeReqs_eq (alloc : PageAllocator) (x : Executor) (n : ℕ)
    (iter : RemotePageTableIter) :
    executeReqs alloc x n iter = executeStrategy alloc x (.step n) iter := rfl

/-- A READ for each of the entries, in order, into the pages that are allocated
next. -/
def reads (alloc : PageAllocator) (x : Executor) (es : List PageEntry) : List ReadRequest :=
  es.mapIdx fun i e =>
    ⟨x.prefetcher.conn.posted + i, some x.prefetcher.accessInfo.accessHandler,
      PhysAddr.decode e.addr, x.prefetcher.accessInfo.rkey, alloc.page (x.allocated + i), 4096⟩

/-- A pending entry for each of the entries, in order. -/
def replies (alloc : PageAllocator) (x : Executor) (es : List PageEntry) : List ReplyEntry :=
  es.mapIdx fun i e => ⟨e.page, e.index, alloc.page (x.allocated + i)⟩

/-- READs were posted for exactly the given entries, which the table had: each
with a page of its own and a pending entry, and with its slot marked.  Nothing
else of the table or the queues has changed. -/
structure Posted (alloc : PageAllocator) (x : Executor) (es : List PageEntry)
    (x' : Executor) : Prop where
  posted : x'.prefetcher.conn.posted = x.prefetcher.conn.posted + es.length
  inFlight : x'.prefetcher.conn.cq.inFlight =
    x.prefetcher.conn.cq.inFlight ++ x.reads alloc es
  completed : x'.prefetcher.conn.cq.completed = x.prefetcher.conn.cq.completed
  pending : x'.prefetcher.pendingQueues =
    x.prefetcher.pendingQueues ++ x.replies alloc es
  accessInfo : x'.prefetcher.accessInfo = x.prefetcher.accessInfo
  allocated : x'.allocated = x.allocated + es.length
  entries : ∀ pt idx, (x'.heap.node pt).entries idx =
    if (pt, idx) ∈ es.map place then kMagicInPrefetch else (x.heap.node pt).entries idx
  nodes : ∀ pt, (x'.heap.node pt).level = (x.heap.node pt).level ∧
    (x'.heap.node pt).upperLevel = (x.heap.node pt).upperLevel ∧
    (x'.heap.node pt).upperLevelIndex = (x.heap.node pt).upperLevelIndex
  next : x'.heap.next = x.heap.next

variable {alloc : PageAllocator} {x x' : Executor} {e : PageEntry} {es : List PageEntry}

theorem Posted.nil (x : Executor) : Posted alloc x [] x where
  posted := rfl
  inFlight := (List.append_nil _).symm
  completed := rfl
  pending := (List.append_nil _).symm
  accessInfo := rfl
  allocated := rfl
  entries := fun pt idx => by simp
  nodes := fun pt => ⟨rfl, rfl, rfl⟩
  next := rfl

theorem posted_executeReq (hword : (x.heap.node e.page).entries e.index = e.addr)
    (hneed : needPrefetch e = true) :
    Posted alloc x [e] (executeReq alloc x e) := by
  have hremote : ¬ PhysAddr.bottomBit e.addr = true := by
    simpa [needPrefetch] using hneed
  rw [executeReq]
  simp only [hword, if_neg hremote, allocPage]
  constructor
  case posted => rfl
  case inFlight => rfl
  case completed => rfl
  case pending => rfl
  case accessInfo => rfl
  case allocated => rfl
  case entries =>
    intro pt idx
    by_cases hplace : (pt, idx) = place e
    · cases hplace
      simp [place]
    · rw [if_neg (by simpa using hplace)]
      apply Heap.setEntry_entries_of_ne
      by_contra heq
      push Not at heq
      exact hplace (Prod.ext heq.1 heq.2)
  case nodes => exact fun pt => ⟨by simp, by simp, by simp⟩
  case next => rfl

theorem Posted.append {x₁ x₂ : Executor} {es₁ es₂ : List PageEntry}
    (h₁ : Posted alloc x es₁ x₁) (h₂ : Posted alloc x₁ es₂ x₂) :
    Posted alloc x (es₁ ++ es₂) x₂ := by
  constructor
  case posted => rw [h₂.posted, h₁.posted, List.length_append, Nat.add_assoc]
  case inFlight =>
    rw [h₂.inFlight, h₁.inFlight, List.append_assoc]
    simp only [reads, h₁.posted, h₁.accessInfo, h₁.allocated, List.mapIdx_append,
      Nat.add_assoc, Nat.add_comm es₁.length]
  case completed => rw [h₂.completed, h₁.completed]
  case pending =>
    rw [h₂.pending, h₁.pending, List.append_assoc]
    simp only [replies, h₁.allocated, List.mapIdx_append, Nat.add_assoc,
      Nat.add_comm es₁.length]
  case accessInfo => rw [h₂.accessInfo, h₁.accessInfo]
  case allocated => rw [h₂.allocated, h₁.allocated, List.length_append, Nat.add_assoc]
  case entries =>
    intro pt idx
    rw [h₂.entries, h₁.entries]
    by_cases hmem₂ : (pt, idx) ∈ es₂.map place
    · rw [if_pos hmem₂, if_pos (by rw [List.map_append]; exact List.mem_append_right _ hmem₂)]
    · rw [if_neg hmem₂]
      simp only [List.map_append, List.mem_append, hmem₂, or_false]
  case nodes =>
    intro pt
    obtain ⟨hl₁, hu₁, hi₁⟩ := h₁.nodes pt
    obtain ⟨hl₂, hu₂, hi₂⟩ := h₂.nodes pt
    exact ⟨hl₂.trans hl₁, hu₂.trans hu₁, hi₂.trans hi₁⟩
  case next => rw [h₂.next, h₁.next]

theorem posted_foldl (hnodup : (es.map place).Nodup)
    (hwords : ∀ e ∈ es, (x.heap.node e.page).entries e.index = e.addr)
    (hneed : ∀ e ∈ es, needPrefetch e = true) :
    Posted alloc x es (es.foldl (executeReq alloc) x) := by
  induction es generalizing x with
  | nil => exact Posted.nil x
  | cons e es ih =>
    rw [List.map_cons, List.nodup_cons] at hnodup
    rw [List.forall_mem_cons] at hwords hneed
    have hone : Posted alloc x [e] (executeReq alloc x e) :=
      posted_executeReq hwords.1 hneed.1
    refine hone.append (ih hnodup.2 ?_ hneed.2)
    -- the slot just marked is none of the later ones
    intro e' he'
    have hne : (e'.page, e'.index) ∉ [e].map place := by
      rw [List.map_singleton, List.mem_singleton]
      intro heq
      exact hnodup.1 (heq ▸ List.mem_map_of_mem he')
    rw [hone.entries, if_neg hne]
    exact hwords.2 e' he'

theorem Posted.pages (h : Posted alloc x es x') (hcap : x'.allocated ≤ alloc.capacity) :
    ((x.replies alloc es).map ReplyEntry.userPage).Nodup ∧
      ∀ m < x.allocated, alloc.page m ∉ (x.replies alloc es).map ReplyEntry.userPage := by
  have hpages : (x.replies alloc es).map ReplyEntry.userPage =
      (List.range es.length).map fun i => alloc.page (x.allocated + i) := by
    rw [replies]
    apply List.ext_getElem
    · simp
    · simp
  rw [h.allocated] at hcap
  rw [hpages]
  constructor
  · refine List.Nodup.map_on ?_ List.nodup_range
    intro i hi j hj heq
    rw [List.mem_range] at hi hj
    have := alloc.injective _ _ (by omega) (by omega) heq
    omega
  · intro m hm hmem
    obtain ⟨i, hi, heq⟩ := List.mem_map.mp hmem
    rw [List.mem_range] at hi
    have := alloc.injective _ _ (by omega) (by omega) heq
    omega

/-! ## The table stays well formed -/

theorem wellFormed_executeReq {root : Ptr} (hw : WellFormed x.heap root) {key : ℕ}
    (hp : nodeAt x.heap root 3 key = some e.page) :
    WellFormed (executeReq alloc x e).heap root ∧
      ∀ k, nodeAt (executeReq alloc x e).heap root 3 k = nodeAt x.heap root 3 k := by
  rw [executeReq]
  dsimp only
  split
  · exact ⟨hw, fun _ => rfl⟩
  · refine ⟨hw.setEntry_levelOne hp e.index kMagicInPrefetch, fun k => ?_⟩
    exact nodeAt_setEntry_levelOne hw.toLinked hp e.index kMagicInPrefetch le_rfl k

theorem wellFormed_foldl {root : Ptr} (hw : WellFormed x.heap root)
    (hnodes : ∀ e ∈ es, ∃ key, nodeAt x.heap root 3 key = some e.page) :
    WellFormed (es.foldl (executeReq alloc) x).heap root ∧
      ∀ k, nodeAt (es.foldl (executeReq alloc) x).heap root 3 k = nodeAt x.heap root 3 k := by
  induction es generalizing x with
  | nil => exact ⟨hw, fun _ => rfl⟩
  | cons e es ih =>
    rw [List.forall_mem_cons] at hnodes
    obtain ⟨⟨key, hp⟩, hnodes⟩ := hnodes
    have hone : WellFormed (executeReq alloc x e).heap root ∧ _ :=
      wellFormed_executeReq hw hp
    obtain ⟨hw', hsame⟩ := hone
    obtain ⟨hw'', hsame'⟩ := ih hw' fun e' he' => by simpa only [hsame] using hnodes e' he'
    exact ⟨hw'', fun k => (hsame' k).trans (hsame k)⟩

end Executor

/-! ## The slots behind a position -/

section Slots

variable {h : Heap} {root : Ptr}

theorem of_entryAt {slot : ℕ} {e : PageEntry} (he : entryAt h root slot = some e) :
    nodeAt h root 3 (slot / 512) = some e.page ∧ .newTruncate slot = e.index ∧
      (h.node e.page).entries e.index = e.addr := by
  obtain ⟨hp, hword, hi⟩ := entryAt_eq_some_iff.mp he
  rw [nodeAt_succ, hp, Option.bind_some, lookupTable_eq_some, hi] at hword
  exact ⟨hp, hi, hword.1⟩

theorem nodup_places (hw : WellFormed h root) {slots : List ℕ} {es : List PageEntry}
    (hnodup : slots.Nodup)
    (hes : List.Forall₂ (fun slot e => entryAt h root slot = some e) slots es) :
    (es.map place).Nodup := by
  let R : ℕ → Ptr × PageTableIndex → Prop := fun slot q =>
    nodeAt h root 3 (slot / 512) = some q.1 ∧ .newTruncate slot = q.2
  have hplaces : List.Forall₂ R slots (es.map place) := by
    rw [List.forall₂_map_right_iff]
    refine hes.imp fun slot e he => ?_
    obtain ⟨hp, hi, -⟩ := of_entryAt he
    exact ⟨hp, hi⟩
  have hunique : Relator.BiUnique R := by
    constructor
    · rintro slot slot' q ⟨hp, hi⟩ ⟨hp', hi'⟩
      have hkey := hw.toLinked.key_eq le_rfl hp hp'
      have hval : slot % 512 = slot' % 512 := by
        rw [← newTruncate_val, ← newTruncate_val, hi, hi']
      omega
    · rintro slot q q' ⟨hp, hi⟩ ⟨hp', hi'⟩
      exact Prod.ext (Option.some.inj (hp.symm.trans hp')) (hi.symm.trans hi')
  exact (List.rel_nodup hunique hplaces).mp hnodup

end Slots

theorem executeStrategy_of_position (alloc : PageAllocator) {x : Executor} {root : Ptr}
    (hw : WellFormed x.heap root) {src : RemotePageTableIter} {start : ℕ}
    (hpos : Position x.heap root src start) :
    ∃ slots es, Support.Enumerates (Present x.heap root 4) start slots ∧
      List.Forall₂ (fun slot e => entryAt x.heap root slot = some e) slots es ∧
      ∀ s : Strategy, ∃ x', x.executeStrategy alloc s src = .ok x' ∧
        x.Posted alloc (s.select es) x' ∧ WellFormed x'.heap root ∧
        ∀ k, nodeAt x'.heap root 3 k = nodeAt x.heap root 3 k := by
  obtain ⟨slots, es, hslots, hyields, hentries⟩ := yields_of_position hw hpos
  have hlen : es.length ≤ 512 ^ 4 := by
    rw [← hentries.length_eq]
    exact length_le_of_enumerates hslots
  refine ⟨slots, es, hslots, hentries, fun s => ?_⟩
  have hsub := s.select_sublist es
  have hmem : ∀ e ∈ s.select es, ∃ slot, entryAt x.heap root slot = some e := by
    intro e he
    obtain ⟨slot, -, hslot⟩ := exists_related hentries.flip (hsub.mem he)
    exact ⟨slot, hslot⟩
  refine ⟨(s.select es).foldl (Executor.executeReq alloc) x, ?_, ?_, ?_⟩
  · rw [Executor.executeStrategy, s.generateRequest_eq hyields hlen]
  · have hnodup := nodup_places hw (hslots.sorted.imp fun hlt => hlt.ne) hentries
    refine Executor.posted_foldl (hnodup.sublist (hsub.map place)) ?_
      fun e he => s.needPrefetch_of_mem he
    intro e he
    obtain ⟨slot, hslot⟩ := hmem e he
    exact (of_entryAt hslot).2.2
  · refine Executor.wellFormed_foldl hw ?_
    intro e he
    obtain ⟨slot, hslot⟩ := hmem e he
    exact ⟨_, (of_entryAt hslot).1⟩

/-- Behind a slot of a level-one node, `execute_reqs` posts READs for exactly
what its strategy takes of the later non-zero slots in the order of their
addresses, and marks exactly their slots.  A second call from the same slot,
before anything completes, posts nothing for a slot that the first one marked. -/
theorem executeStrategy_posts_selected (alloc : PageAllocator) (x : Executor)
    (t : RemotePageTable) (hw : WellFormed x.heap t.l4PageTable) (p : Ptr)
    (hp : LevelOnePage x.heap t p) (i : PageTableIndex) :
    ∃ a : VirtAddr, a.addr % 4096 = 0 ∧ t.findL1PageIdx x.heap a = some (p, i) ∧
      ∃ es, SlotsInOrder x.heap t (fun b => a.addr < b.addr) es ∧
        ∀ s : Strategy, ∃ x',
          x.executeStrategy alloc s (RemotePageTableIter.newFromL1 p i) = .ok x' ∧
          x.Posted alloc (s.select es) x' ∧
          (x'.allocated ≤ alloc.capacity →
            ((x.replies alloc (s.select es)).map ReplyEntry.userPage).Nodup ∧
            ∀ m < x.allocated,
              alloc.page m ∉ (x.replies alloc (s.select es)).map ReplyEntry.userPage) ∧
          ∀ s' : Strategy, ∃ x'' es',
            x'.executeStrategy alloc s' (RemotePageTableIter.newFromL1 p i) = .ok x'' ∧
            x'.Posted alloc es' x'' ∧
            ∀ e ∈ es', (x'.heap.node e.page).entries e.index ≠ kMagicInPrefetch ∧
              place e ∉ (s.select es).map place := by
  obtain ⟨key, hnode⟩ := levelOnePage_iff.mp hp
  obtain ⟨a, halign, hkey, hfind⟩ := exists_slot_address hnode i
  have hpos := position_newFromL1 hnode i
  obtain ⟨slots, es, hslots, hentries, hcall⟩ :=
    executeStrategy_of_position alloc hw hpos
  refine ⟨a, halign, hfind, es, ?_, fun s => ?_⟩
  · refine (slotsInOrder_of_enumerates hslots hentries).congr fun b hb _ => ?_
    rw [VirtAddr.addr_lt_iff halign hb, hkey]
    exact Iff.rfl
  · obtain ⟨x', hx', hposted, hw', hnodes⟩ := hcall s
    refine ⟨x', hx', hposted, hposted.pages, fun s' => ?_⟩
    -- the second call meets the table with the marks of the first
    have hpos' := position_newFromL1 ((hnodes key).trans hnode) i
    obtain ⟨slots', es', -, hentries', hcall'⟩ :=
      executeStrategy_of_position alloc hw' hpos'
    obtain ⟨x'', hx'', hposted', -, -⟩ := hcall' s'
    refine ⟨x'', s'.select es', hx'', hposted', fun e he => ?_⟩
    obtain ⟨slot, -, hslot⟩ := exists_related hentries'.flip ((s'.select_sublist es').mem he)
    have hne : (x'.heap.node e.page).entries e.index ≠ kMagicInPrefetch := by
      have hneed := s'.needPrefetch_of_mem he
      rw [(of_entryAt hslot).2.2]
      intro heq
      rw [needPrefetch, heq] at hneed
      cases hneed
    refine ⟨hne, fun hmem => hne ?_⟩
    exact (hposted.entries e.page e.index).trans (if_pos hmem)

/-- Two slots behind the first one: a remote page, after one that is local. -/
theorem executeStrategy_posts_selected_local :
    let a : VirtAddr := ⟨4096, by decide⟩
    let calls : List SlotCall := [.call (.map a 4096), .call (.map ⟨8192, by decide⟩ 8193),
      .call (.map ⟨12288, by decide⟩ 12292)]
    let s := slotMachine.run (RemotePageTable.new Heap.empty) calls
    let alloc : PageAllocator :=
      ⟨fun n => 8 * (n + 1), 16, by omega, by omega, by omega, by omega⟩
    let x : Executor := ⟨s.1, .newFromRaw .new ⟨1, 2, 3⟩, 0, fun _ => .unfilled, []⟩
    s.2.findL1PageIdx s.1 a = some (4, 1) ∧
      ∃ es x', x.executeReqs alloc 1 (RemotePageTableIter.newFromL1 4 1) = .ok x' ∧
        x.Posted alloc ((Strategy.step 1).select es) x' := by
  intro a calls s alloc x
  have hfind : s.2.findL1PageIdx s.1 a = some (4, 1) := by decide +kernel
  have hw := wellFormed_of_run Heap.empty calls s rfl
  clear_value s
  obtain ⟨-, -, -, es, -, hcall⟩ :=
    executeStrategy_posts_selected alloc x s.2 hw 4 ⟨a, 1, hfind⟩ 1
  obtain ⟨x', hx', hposted, -⟩ := hcall (.step 1)
  rw [← Executor.executeReqs_eq] at hx'
  exact ⟨hfind, es, x', hx', hposted⟩

end Mitosis.Prefetcher
