import Mitosis.PageFault.Refinement

/-!
# What a child writes into its table

A child with the `page-cache` feature overwrites slots of its table: with the mark of
a READ under way, with a page that was read ahead, and with a page that it has read
and keeps.  It does so only in slots that are mapped from the start, and every other
slot keeps its word.  Nothing is assumed here about the network or the memory.
-/

namespace Mitosis.PageFault

open Mitosis.OsNetwork
open Mitosis.Prefetcher
open Mitosis.RemoteMapping

/-- A word that a child writes itself. -/
def Marked (f : Features) (w : PhysAddr) : Prop :=
  PhysAddr.isCache w = true ∨ (f.prefetch = true ∧ PhysAddr.isPrefetch w = true)

theorem Marked.ne_zero {f : Features} {w : PhysAddr} (h : Marked f w) : w ≠ 0 := by
  rintro rfl
  rcases h with h | ⟨-, h⟩ <;> exact absurd h (by decide)

/-- The word of a slot is the one at the start, or it is marked and the slot was mapped
at the start. -/
def Derived (mark : PhysAddr → Prop) (start now : Option PhysAddr) : Prop :=
  now = start ∨ ∃ w, now = some w ∧ mark w ∧ start.isSome

theorem Derived.isSome {mark : PhysAddr → Prop} {start now : Option PhysAddr}
    (h : Derived mark start now) (hnow : now.isSome) : start.isSome := by
  rcases h with rfl | ⟨-, -, -, hstart⟩
  · exact hnow
  · exact hstart

theorem Derived.mono {mark mark' : PhysAddr → Prop} {start now : Option PhysAddr}
    (h : Derived mark start now) (hmark : ∀ w, now = some w → mark w → mark' w) :
    Derived mark' start now := by
  rcases h with heq | ⟨w, hnow, hw, hstart⟩
  · exact Or.inl heq
  · exact Or.inr ⟨w, hnow, hmark w hnow hw, hstart⟩

/-- The table of the executor, outside of the slots in `S`, derives from the words `T`,
and the pending READs are for slots that `T` maps. -/
structure WordsFrom (f : Features) (σ : Setup) (T : ℕ → Option PhysAddr) (S : Set ℕ)
    (x : Executor) (word : ℕ → Option PhysAddr) : Prop where
  table : HasWords σ x.heap word
  slots : ∀ k < 2 ^ 36, k ∉ S → Derived (Marked f) (T k) (word k)
  pending : ∀ e ∈ x.prefetcher.pendingQueues,
    f.prefetch = true ∧ ∃ k, σ.SlotAt e.pt e.idx k ∧ (T k).isSome

namespace WordsFrom

variable {f : Features} {σ : Setup} {T : ℕ → Option PhysAddr} {S : Set ℕ} {x x' : Executor}
  {word : ℕ → Option PhysAddr} {pt : Ptr} {idx : PageTableIndex} {k : ℕ} {w : PhysAddr}

theorem congr (h : WordsFrom f σ T S x word) (hheap : x'.heap = x.heap)
    (hpending : x'.prefetcher.pendingQueues = x.prefetcher.pendingQueues) :
    WordsFrom f σ T S x' word where
  table := hheap ▸ h.table
  slots := h.slots
  pending := hpending ▸ h.pending

theorem mono {S' : Set ℕ} (h : WordsFrom f σ T S x word) (hS : S ⊆ S') :
    WordsFrom f σ T S' x word where
  table := h.table
  slots k hk hS' := h.slots k hk fun hmem => hS' (hS hmem)
  pending := h.pending

theorem isSome (h : WordsFrom f σ T ∅ x word) (hw : word k = some w) : (T k).isSome := by
  have hlt : k < 2 ^ 36 := present_four_lt ⟨w, (h.table.words k).trans hw⟩
  exact (h.slots k hlt (Set.notMem_empty k)).isSome (by rw [hw]; rfl)

theorem slotAt_of_find (h : WordsFrom f σ T S x word) {t : RemotePageTable} {a : VirtAddr}
    (ht : t.l4PageTable = σ.root) (hfind : t.findL1PageIdx x.heap a = some (pt, idx)) :
    σ.SlotAt pt idx a.pageKey := by
  obtain ⟨hnode, hidx⟩ := findL1PageIdx_eq_some.mp hfind
  rw [ht, h.table.nodes] at hnode
  exact ⟨hnode, hidx⟩

theorem write (h : WordsFrom f σ T S x word) (hs : σ.SlotAt pt idx k) (hT : (T k).isSome)
    (hw : Marked f w) (hheap : x'.heap = x.heap.setEntry pt idx w)
    (hpending : ∀ e ∈ x'.prefetcher.pendingQueues, e ∈ x.prefetcher.pendingQueues ∨
      (f.prefetch = true ∧ e.pt = pt ∧ e.idx = idx)) :
    WordsFrom f σ T (S \ {k}) x' (Function.update word k (some w)) where
  table := by
    have htable := h.table.setEntry hs w
    rwa [if_neg hw.ne_zero, ← hheap] at htable
  slots j hj hS := by
    by_cases hjk : j = k
    · subst hjk
      exact Or.inr ⟨w, Function.update_self .., hw, hT⟩
    · rw [Function.update_of_ne hjk]
      exact h.slots j hj fun hmem => hS ⟨hmem, hjk⟩
  pending e he := by
    rcases hpending e he with hold | ⟨hf, rfl, rfl⟩
    · exact h.pending e hold
    · exact ⟨hf, k, hs, hT⟩

/-! ## The prefetcher -/

theorem executeReq (hf : f.prefetch = true) (h : WordsFrom f σ T ∅ x word)
    (alloc : PageAllocator) {req : PageEntry} (hs : σ.SlotAt req.page req.index k)
    (hT : (T k).isSome) :
    ∃ word', WordsFrom f σ T ∅ (Executor.executeReq alloc x req) word' := by
  unfold Executor.executeReq
  dsimp only
  split
  · exact ⟨word, h⟩
  · have hmark : Marked f kMagicInPrefetch := Or.inr ⟨hf, by decide⟩
    refine ⟨_, Set.empty_sdiff {k} ▸ h.write hs hT hmark rfl ?_⟩
    intro e he
    rcases List.mem_append.mp he with hold | hnew
    · exact Or.inl hold
    · obtain rfl := List.mem_singleton.mp hnew
      exact Or.inr ⟨hf, rfl, rfl⟩

theorem foldl_executeReq (hf : f.prefetch = true) (alloc : PageAllocator)
    {reqs : List PageEntry} (h : WordsFrom f σ T ∅ x word)
    (hreqs : ∀ req ∈ reqs, ∃ k, σ.SlotAt req.page req.index k ∧ (T k).isSome) :
    ∃ word', WordsFrom f σ T ∅ (reqs.foldl (Executor.executeReq alloc) x) word' := by
  induction reqs generalizing x word with
  | nil => exact ⟨word, h⟩
  | cons req reqs ih =>
    obtain ⟨k, hs, hT⟩ := hreqs req List.mem_cons_self
    obtain ⟨word₁, h₁⟩ := h.executeReq hf alloc hs hT
    exact ih h₁ fun req' hreq' => hreqs req' (List.mem_cons_of_mem _ hreq')

theorem executeReqs (hf : f.prefetch = true) (alloc : PageAllocator)
    (h : WordsFrom f σ T ∅ x word) (hs : σ.SlotAt pt idx k) {n : ℕ}
    (hexec : Executor.executeReqs alloc x n (.newFromL1 pt idx) = .ok x') :
    ∃ word', WordsFrom f σ T ∅ x' word' := by
  have hpos := position_newFromL1 ((h.table.nodes _).trans hs.node) idx
  obtain ⟨reqs, hgen, -, hreqs⟩ := h.table.requested_of_generateRequest hpos n
  rw [Executor.executeReqs, hgen] at hexec
  cases hexec
  refine h.foldl_executeReq hf alloc fun req hreq => ?_
  obtain ⟨slot, -, hslot, hword | hword⟩ := hreqs req hreq
  · exact ⟨slot, hslot, h.isSome hword⟩
  · exact ⟨slot, hslot, h.isSome hword⟩

theorem poll (h : WordsFrom f σ T ∅ x word) (e : CqEvent) :
    ∃ word', WordsFrom f σ T ∅ (x.poll e).1 word' := by
  unfold Executor.poll
  split
  · cases hqueue : x.prefetcher.pendingQueues with
    | nil => exact ⟨word, h.congr rfl rfl⟩
    | cons v rest =>
      obtain ⟨hf, k, hs, hT⟩ := h.pending v (by rw [hqueue]; exact List.mem_cons_self)
      have hrest : ∀ e ∈ rest, e ∈ x.prefetcher.pendingQueues := by
        intro e he
        rw [hqueue]
        exact List.mem_cons_of_mem v he
      dsimp only
      split
      · exact ⟨word, h.table, h.slots, fun e he => h.pending e (hrest e he)⟩
      · exact ⟨_, Set.empty_sdiff {k} ▸ h.write hs hT
          (Or.inr ⟨hf, PhysAddr.isPrefetch_encode v.userPage⟩) rfl
          fun e he => Or.inl (hrest e he)⟩
  · exact ⟨word, h.congr rfl rfl⟩
  · exact ⟨word, h.congr rfl rfl⟩

theorem polled (h : WordsFrom f σ T ∅ x word) (hpolled : x.Polled x') :
    ∃ word', WordsFrom f σ T ∅ x' word' := by
  refine hpolled.invariant (I := fun y => ∃ word', WordsFrom f σ T ∅ y word') ?_ ⟨word, h⟩
  rintro y e ⟨word', hy⟩
  exact hy.poll e

end WordsFrom

/-! ## The fault handler -/

/-- The table of the child, outside of the slots in `S`, derives from the words `T`. -/
def Child.From (f : Features) (σ : Setup) (T : ℕ → Option PhysAddr) (S : Set ℕ)
    (c : Child) : Prop :=
  c.root = σ.root ∧ ∃ word, WordsFrom f σ T S c.exec word

namespace Child.From

variable {f : Features} {σ : Setup} {T : ℕ → Option PhysAddr} {S : Set ℕ} {c c' : Child}
  {alloc : PageAllocator} {addr : VirtAddr} {env : FaultEnv}

theorem of_words (alloc : PageAllocator) (hw : WellFormed c.exec.heap c.root)
    (hwords : ∀ k < 2 ^ 36, Derived (Marked f) (T k) (nodeAt c.exec.heap c.root 4 k))
    (hpending : c.exec.prefetcher.pendingQueues = []) :
    c.From f (c.setup alloc (fun _ => True) trivial) T ∅ := by
  refine ⟨rfl, nodeAt c.exec.heap c.root 4, ⟨hw, fun _ => rfl, fun _ => rfl⟩, ?_, ?_⟩
  · exact fun k hk _ => hwords k hk
  · simp [hpending]

theorem congr (h : c.From f σ T S) (hroot : c'.root = c.root)
    (hheap : c'.exec.heap = c.exec.heap)
    (hpending : c'.exec.prefetcher.pendingQueues = c.exec.prefetcher.pendingQueues) :
    c'.From f σ T S := by
  obtain ⟨hσ, word, hx⟩ := h
  exact ⟨hroot.trans hσ, word, hx.congr hheap hpending⟩

theorem faultWithoutPage (h : c.From f σ T S) (vmaStart : UInt64) :
    (c.faultWithoutPage alloc vmaStart).1.From f σ T S := by
  unfold Child.faultWithoutPage
  split
  · exact h.congr rfl rfl rfl
  · exact h

theorem cachedPage (h : c.From f σ T S) (w : PhysAddr) :
    (c.cachedPage alloc w).1.From f σ T S := by
  unfold Child.cachedPage
  dsimp only
  split
  · exact h
  · exact h.congr rfl rfl rfl

theorem readRemotePage {useRc : Bool} {r : Option ℕ} (h : c.From f σ T S)
    (hread : c.readRemotePage alloc useRc addr env = .ok (c', r)) : c'.From f σ T S := by
  unfold Child.readRemotePage at hread
  split at hread
  · cases hread
    exact h
  · dsimp only at hread
    split at hread
    · cases hread
    · cases hread
      exact h.congr rfl rfl rfl
    · cases hread
      exact h.congr rfl rfl rfl

theorem awaitRead {x : Executor} {own : ReadRequest} {r : Option ℕ}
    (h : ({ c with exec := x } : Child).From f σ T S)
    (hread : c.awaitRead x own env = .ok (c', r)) : c'.From f σ T S := by
  unfold Child.awaitRead at hread
  split at hread
  · cases hread
  · cases hread
    exact h.congr rfl rfl rfl
  · cases hread
    exact h.congr rfl rfl rfl

theorem takePrefetched {pt : Ptr} {idx : PageTableIndex} {r : Option ℕ} (h : c.From f σ T ∅)
    (hfind : c.descriptor.pageTable.findL1PageIdx c.exec.heap addr = some (pt, idx))
    (htake : c.takePrefetched addr pt idx env = .ok (c', r)) :
    r.isSome ∧ c'.From f σ T {addr.pageKey} := by
  obtain ⟨hσ, word, hx⟩ := h
  have hs := hx.slotAt_of_find hσ hfind
  obtain ⟨x, hpolled, -, rfl, rfl⟩ := Child.takePrefetched_eq_ok htake
  obtain ⟨word₁, hx₁⟩ := hx.polled hpolled
  refine ⟨rfl, hσ, _, hx₁.table.setEntry hs 0, ?_, hx₁.pending⟩
  intro k hk hne
  rw [Function.update_of_ne hne]
  exact hx₁.slots k hk (Set.notMem_empty k)

/-- `read_remote_page` of both versions: without a page the table derives from `T`,
and with one it does so outside of the slot of the fault. -/
theorem readPage {r : Option ℕ} (h : c.From f σ T ∅)
    (hread : c.readPage f alloc addr env = .ok (c', r)) :
    c'.From f σ T {addr.pageKey} ∧ (r = none → c'.From f σ T ∅) := by
  have hwider : ∀ {c : Child}, c.From f σ T ∅ →
      c.From f σ T {addr.pageKey} ∧ (r = none → c.From f σ T ∅) := by
    rintro c ⟨hσ, word, hx⟩
    exact ⟨⟨hσ, word, hx.mono (Set.empty_subset _)⟩, fun _ => ⟨hσ, word, hx⟩⟩
  unfold Child.readPage at hread
  split at hread
  · next hf =>
      unfold Child.readRemotePagePrefetch at hread
      cases hfind : c.descriptor.pageTable.findL1PageIdx c.exec.heap addr with
      | none =>
        rw [hfind] at hread
        cases hread
        exact hwider h
      | some found =>
        obtain ⟨pt, idx⟩ := found
        rw [hfind] at hread
        dsimp only at hread
        split at hread
        · obtain ⟨hsome, hfrom⟩ := h.takePrefetched hfind hread
          exact ⟨hfrom, fun hnone => by simp [hnone] at hsome⟩
        · simp only [Executor.allocPage, bind, Except.bind] at hread
          split at hread
          · cases hread
          · split at hread
            · cases hread
            · next x₁ hexec =>
                split at hread
                · cases hread
                · next x₂ hpoll =>
                    obtain ⟨hσ, word, hx⟩ := h
                    have hs := hx.slotAt_of_find hσ hfind
                    have hx₀ : WordsFrom f σ T ∅ (c.exec.allocPage alloc).1 word :=
                      hx.congr rfl rfl
                    obtain ⟨word₁, hx₁⟩ := hx₀.executeReqs hf alloc hs hexec
                    obtain ⟨word₂, hx₂⟩ := hx₁.polled (Child.polled_pollLoop hpoll)
                    have hx₃ : ({ c with exec := x₂.1 } : Child).From f σ T ∅ :=
                      ⟨hσ, word₂, hx₂⟩
                    exact hwider (hx₃.awaitRead hread)
  · exact hwider (h.readRemotePage hread)

theorem cachePage (h : c.From f σ T {addr.pageKey}) (hT : (T addr.pageKey).isSome) {pt : Ptr}
    (hpt : σ.node (addr.pageKey / 512) = some pt) (page : ℕ) :
    (c.cachePage addr page).From f σ T ∅ := by
  obtain ⟨hσ, word, hx⟩ := h
  have hs : σ.SlotAt pt (.newTruncate addr.pageKey) addr.pageKey := ⟨hpt, rfl⟩
  have hwf := hx.table.wellFormed
  rw [← hσ] at hwf
  have hroot := (forceMap_spec (a := addr) hwf
    (PhysAddr.encode page PhysAddrBitFlag.cache.bits)).1
  have hheap : (c.cachePage addr page).exec.heap = _ := hx.table.forceMap_eq hσ hpt _
  have hnew := hx.write hs hT (Or.inl (PhysAddr.isCache_encode page)) hheap fun e he => Or.inl he
  rw [Set.sdiff_self] at hnew
  exact ⟨hroot.trans hσ, _, hnew⟩

/-- With the page cache, the table derives from `T` after every fault. -/
theorem handlePageFault (hcache : f.pageCache = true) (h : c.From f σ T ∅) {fault : Fault}
    {r : FaultResult} (hfault : c.handlePageFault f alloc fault env = .ok (c', r)) :
    c'.From f σ T ∅ := by
  unfold Child.handlePageFault at hfault
  cases hw : c.lookupPgTable fault.address with
  | none =>
    rw [hw] at hfault
    obtain rfl : _ = c' := congrArg Prod.fst (Except.ok.inj hfault)
    exact h.faultWithoutPage fault.vmaStart
  | some w =>
    rw [hw] at hfault
    dsimp only at hfault
    split at hfault
    · cases hfault
      exact h.cachedPage w
    · cases hread : c.readPage f alloc fault.address env with
      | error halt =>
        rw [hread] at hfault
        cases hfault
      | ok res =>
        obtain ⟨c₁, page⟩ := res
        obtain ⟨hfrom, hnone⟩ := h.readPage hread
        rw [hread] at hfault
        cases page with
        | none =>
          obtain rfl : _ = c' := congrArg Prod.fst (Except.ok.inj hfault)
          exact (hnone rfl).faultWithoutPage fault.vmaStart
        | some page =>
          obtain ⟨hσ, word, hx⟩ := h
          have hword : word fault.address.pageKey = some w := by
            rw [← hx.table.words, ← hσ, ← hw, Child.lookupPgTable, translate_eq]
            rfl
          obtain ⟨pt, hs⟩ := hx.table.exists_slotAt hword
          cases hfault
          exact hfrom.cachePage (hx.isSome hword) hs.node page

theorem step (hcache : f.pageCache = true) (h : c.From f σ T ∅) (a : ChildAction) :
    ((childMachine f alloc).step c a).1.From f σ T ∅ := by
  cases a with
  | fault fault env =>
    change (c.faultStep f alloc fault env).1.From f σ T ∅
    unfold Child.faultStep
    cases hfault : c.handlePageFault f alloc fault env with
    | error halt => exact h
    | ok res => exact h.handlePageFault hcache hfault
  | complete status => exact h.congr rfl rfl rfl
  | poll e =>
    obtain ⟨hσ, word, hx⟩ := h
    obtain ⟨word', hx'⟩ := hx.poll e
    have hstep : (c.pollOnce e).1 = { c with exec := (c.exec.poll e).1 } := by
      unfold Child.pollOnce
      split
      · next heq => rw [heq]
      · next heq => rw [heq]
    change (c.pollOnce e).1.From f σ T ∅
    rw [hstep]
    exact ⟨hσ, word', hx'⟩

end Child.From

end Mitosis.PageFault
