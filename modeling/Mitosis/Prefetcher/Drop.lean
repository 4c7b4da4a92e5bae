import Mitosis.Prefetcher.Executor

/-!
# Dropping a page table

Dropping a node of an upper level drops the nodes below it; dropping a level-one
node frees the local pages in its slots and asserts that none of them is still
marked.  A table whose local pages are distinct frees each of them once.
-/

namespace Mitosis.Prefetcher

open Mitosis.RemoteMapping

/-- Visit entries in order and collect the pages they free. -/
def dropAll (f : PageTableIndex → Except Halt (List ℕ)) :
    List PageTableIndex → Except Halt (List ℕ)
  | [] => .ok []
  | i :: is => do
    let freed ← f i
    let rest ← dropAll f is
    .ok (freed ++ rest)

/-- An entry of a level-one node. -/
def dropEntry (entry : PhysAddr) : Except Halt (List ℕ) :=
  if entry ≠ 0 then
    if entry = kMagicInPrefetch then .error .panicked
    else if PhysAddr.isPrefetch entry then .ok [PhysAddr.decode entry]
    else .ok []
  else .ok []

/-- `PageTable::drop`: the pages it frees.  The bound is the number of levels. -/
def dropNode (h : Heap) : ℕ → Ptr → Except Halt (List ℕ)
  | 0, _ => .error .unfinished
  | bound + 1, p =>
    match (h.node p).level.nextLowerLevel with
    | some _ =>
      dropAll (fun i => if (h.node p).entries i ≠ 0 then
          -- this is a pointer
          dropNode h bound ((h.node p).entries i)
        else .ok []) (List.finRange 512)
    | none => dropAll (fun i => dropEntry ((h.node p).entries i)) (List.finRange 512)

def dropTable (h : Heap) (t : RemotePageTable) : Except Halt (List ℕ) :=
  dropNode h 4 t.l4PageTable

/-- The pages with `Q` are freed, each of them once. -/
def Frees (r : Except Halt (List ℕ)) (Q : ℕ → Prop) : Prop :=
  ∃ freed, r = .ok freed ∧ freed.Nodup ∧ ∀ page, page ∈ freed ↔ Q page

theorem Frees.congr {r : Except Halt (List ℕ)} {Q Q' : ℕ → Prop} (hr : Frees r Q)
    (hiff : ∀ page, Q page ↔ Q' page) : Frees r Q' := by
  obtain ⟨freed, heq, hnodup, hmem⟩ := hr
  exact ⟨freed, heq, hnodup, fun page => (hmem page).trans (hiff page)⟩

theorem frees_dropAll {f : PageTableIndex → Except Halt (List ℕ)}
    {Q : PageTableIndex → ℕ → Prop} (hf : ∀ i, Frees (f i) (Q i))
    (hapart : ∀ i j page, Q i page → Q j page → i = j) {is : List PageTableIndex}
    (his : is.Nodup) : Frees (dropAll f is) (fun page => ∃ i ∈ is, Q i page) := by
  induction is with
  | nil => exact ⟨[], rfl, List.nodup_nil, by simp⟩
  | cons i is ih =>
    obtain ⟨hi, his⟩ := List.nodup_cons.mp his
    obtain ⟨freed, hfreed, hnodup, hmem⟩ := hf i
    obtain ⟨rest, hrest, hnodup', hmem'⟩ := ih his
    refine ⟨freed ++ rest, ?_, ?_, ?_⟩
    · rw [dropAll, hfreed, hrest]
      rfl
    · refine List.Nodup.append hnodup hnodup' ?_
      intro page hpage hpage'
      obtain ⟨j, hj, hQ⟩ := (hmem' page).mp hpage'
      rw [hapart i j page ((hmem page).mp hpage) hQ] at hi
      exact hi hj
    · intro page
      simp only [List.mem_append, hmem, hmem', List.mem_cons, exists_eq_or_imp]

/-- A slot holds a local page. -/
def HoldsPage (word : ℕ → Option PhysAddr) (slot page : ℕ) : Prop :=
  ∃ w, word slot = some w ∧ PhysAddr.isPrefetch w = true ∧ PhysAddr.decode w = page

theorem frees_dropEntry {h : Heap} {i : PageTableIndex} {p : Ptr}
    {word : ℕ → Option PhysAddr} {slot : ℕ} (hword : word slot = lookupTable h i p)
    (hmark : word slot ≠ some kMagicInPrefetch) :
    Frees (dropEntry ((h.node p).entries i)) (HoldsPage word slot) := by
  unfold dropEntry
  by_cases hzero : (h.node p).entries i = 0
  · have hnone : word slot = none := hword.trans (lookupTable_eq_none.mpr hzero)
    exact ⟨[], by simp [hzero], List.nodup_nil, by simp [HoldsPage, hnone]⟩
  have hsome : word slot = some ((h.node p).entries i) :=
    hword.trans (lookupTable_eq_some.mpr ⟨rfl, hzero⟩)
  have hne : (h.node p).entries i ≠ kMagicInPrefetch := by
    intro heq
    rw [hsome, heq] at hmark
    exact hmark rfl
  rw [if_pos hzero, if_neg hne]
  by_cases hbit : PhysAddr.isPrefetch ((h.node p).entries i) = true
  · rw [if_pos hbit]
    refine ⟨_, rfl, List.nodup_singleton _, fun page => ?_⟩
    rw [List.mem_singleton, eq_comm]
    simp [HoldsPage, hsome, hbit]
  · rw [if_neg hbit]
    exact ⟨[], rfl, List.nodup_nil, by simp [HoldsPage, hsome, hbit]⟩

/-- Some slot below the given key holds the page, `j` levels further down. -/
def BelowKey (word : ℕ → Option PhysAddr) (j key page : ℕ) : Prop :=
  ∃ slot, slot / 512 ^ j = key ∧ HoldsPage word slot page

section Nodes

variable {h : Heap} {root : Ptr} {word : ℕ → Option PhysAddr} {j key page : ℕ}

theorem belowKey_zero : BelowKey word 0 key page ↔ HoldsPage word key page := by
  simp [BelowKey]

theorem belowKey_succ :
    BelowKey word (j + 1) key page ↔
      ∃ i ∈ List.finRange 512, BelowKey word j (512 * key + i.val) page := by
  have hdiv : ∀ slot, slot / 512 ^ (j + 1) = slot / 512 ^ j / 512 := fun slot => by
    rw [pow_succ, Nat.div_div_eq_div_mul]
  constructor
  · rintro ⟨slot, hslot, hholds⟩
    rw [hdiv] at hslot
    exact ⟨PageTableIndex.newTruncate (slot / 512 ^ j), List.mem_finRange _, slot,
      child_eq_iff.mpr ⟨hslot, rfl⟩, hholds⟩
  · rintro ⟨i, -, slot, hslot, hholds⟩
    exact ⟨slot, by rw [hdiv, hslot, child_div], hholds⟩

theorem present_above {slot k : ℕ} (hk : k + j = 4) (hp : Present h root 4 slot) :
    Present h root k (slot / 512 ^ j) := by
  induction j generalizing k with
  | zero =>
    obtain rfl : k = 4 := hk
    simpa using hp
  | succ j ih =>
    rw [pow_succ, ← Nat.div_div_eq_div_mul]
    exact present_parent (ih (k := k + 1) (by omega))

theorem nodeAt_of_belowKey (hwords : ∀ k, nodeAt h root 4 k = word k) {k : ℕ}
    (hk : k + j = 4) (hbelow : BelowKey word j key page) :
    ∃ p, nodeAt h root k key = some p := by
  obtain ⟨slot, rfl, w, hw, -⟩ := hbelow
  exact present_above hk ⟨w, (hwords slot).trans hw⟩

theorem frees_entries
    (hapart : ∀ k k' page, HoldsPage word k page → HoldsPage word k' page → k = k')
    {f : PageTableIndex → Except Halt (List ℕ)}
    (hf : ∀ i, Frees (f i) (BelowKey word j (512 * key + i.val))) :
    Frees (dropAll f (List.finRange 512)) (BelowKey word (j + 1) key) := by
  refine (frees_dropAll hf ?_ (List.nodup_finRange 512)).congr fun page =>
    belowKey_succ.symm
  rintro i i' page ⟨slot, hslot, hi⟩ ⟨slot', hslot', hi'⟩
  rw [hapart slot slot' page hi hi'] at hslot
  exact Fin.ext (by omega)

theorem frees_dropNode (hl : Linked h root) (hwords : ∀ k, nodeAt h root 4 k = word k)
    (hmark : ∀ k, word k ≠ some kMagicInPrefetch)
    (hapart : ∀ k k' page, HoldsPage word k page → HoldsPage word k' page → k = k')
    {k : ℕ} {p : Ptr} (hk : k + j = 3) (hp : nodeAt h root k key = some p) :
    Frees (dropNode h (j + 1) p) (BelowKey word (j + 1) key) := by
  induction j generalizing k key p with
  | zero =>
    obtain rfl : k = 3 := hk
    rw [dropNode, hl.level 3 key p le_rfl hp]
    refine frees_entries hapart fun i => (frees_dropEntry ?_ (hmark _)).congr fun _ => belowKey_zero.symm
    exact (hwords _).symm.trans (nodeAt_child hp i)
  | succ j ih =>
    rw [dropNode, hl.level k key p (by omega) hp, levelAt_nextLowerLevel (by omega)]
    refine frees_entries hapart fun i => ?_
    have hchild := nodeAt_child hp i
    by_cases hzero : (h.node p).entries i = 0
    · rw [lookupTable_eq_none.mpr hzero] at hchild
      refine ⟨[], by simp [hzero], List.nodup_nil, fun page => ?_⟩
      simp only [List.not_mem_nil, false_iff]
      intro hbelow
      obtain ⟨q, hq⟩ := nodeAt_of_belowKey (k := k + 1) hwords (by omega) hbelow
      rw [hchild] at hq
      cases hq
    · rw [lookupTable_eq_some.mpr ⟨rfl, hzero⟩] at hchild
      rw [if_pos hzero]
      exact ih (by omega) hchild

/-- Dropping a table without marked slots frees its local pages. -/
theorem frees_dropTable {t : RemotePageTable} (hl : Linked h t.l4PageTable)
    (hwords : ∀ k, nodeAt h t.l4PageTable 4 k = word k)
    (hmark : ∀ k, word k ≠ some kMagicInPrefetch)
    (hapart : ∀ k k' page, HoldsPage word k page → HoldsPage word k' page → k = k') :
    Frees (dropTable h t) (fun page => ∃ slot, HoldsPage word slot page) := by
  have hroot : nodeAt h t.l4PageTable 0 0 = some t.l4PageTable := rfl
  refine (frees_dropNode hl hwords hmark hapart (j := 3) (Nat.zero_add 3) hroot).congr ?_
  intro page
  constructor
  · rintro ⟨slot, -, hholds⟩
    exact ⟨slot, hholds⟩
  · rintro ⟨slot, w, hw, hrest⟩
    exact ⟨slot, Nat.div_eq_of_lt (nodeAt_lt ((hwords slot).trans hw)), w, hw, hrest⟩

end Nodes

end Mitosis.Prefetcher
