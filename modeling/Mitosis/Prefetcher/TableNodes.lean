import Mitosis.Prefetcher.Drop
import Mitosis.RemoteMapping.Separation

/-!
# The nodes of a page table

Every node of a table is a box on the kernel heap, and the node above it owns it through a
raw pointer.  The nodes are allocated by `map`, `force_map` and `deep_copy`, and
`PageTable::drop` gives them back, those below a node before the node itself.  A table has
every node that was allocated for it, and dropping the table gives each of them back once.
-/

namespace Mitosis.Prefetcher

open Mitosis.RemoteMapping

/-- `PageTable::drop` with the box of the node: the nodes it gives back, in order.  The
bound is the number of levels. -/
def freeNode (h : Heap) : ℕ → Ptr → Except Halt (List Ptr)
  | 0, _ => .error .unfinished
  | bound + 1, p => do
    let below ← match (h.node p).level.nextLowerLevel with
      | some _ =>
        dropAll (fun i => if (h.node p).entries i ≠ 0 then
            freeNode h bound ((h.node p).entries i)
          else .ok []) (List.finRange 512)
      | none =>
        -- the pages are freed, and a slot that is marked panics
        dropAll (fun i => (dropEntry ((h.node p).entries i)).map fun _ => [])
          (List.finRange 512)
    .ok (below ++ [p])

def freeTable (h : Heap) (t : RemotePageTable) : Except Halt (List Ptr) :=
  freeNode h 4 t.l4PageTable

/-- The nodes of a tree with `n` levels below its root, each after those below it. -/
def treeNodes (h : Heap) : ℕ → Ptr → List Ptr
  | 0, p => [p]
  | n + 1, p => (List.finRange 512).flatMap (fun i =>
    if (h.node p).entries i ≠ 0 then treeNodes h n ((h.node p).entries i) else []) ++ [p]

/-! ## The nodes below a node -/

section Nodes

variable {h h' : Heap} {root p q : Ptr} {n k j key : ℕ}

theorem mem_treeNodes_succ : q ∈ treeNodes h (n + 1) p ↔
    (∃ i, (h.node p).entries i ≠ 0 ∧ q ∈ treeNodes h n ((h.node p).entries i)) ∨ q = p := by
  rw [treeNodes, List.mem_append, List.mem_flatMap, List.mem_singleton]
  apply or_congr_left
  constructor
  · rintro ⟨i, -, hq⟩
    split at hq
    · next hne => exact ⟨i, hne, hq⟩
    · cases hq
  · rintro ⟨i, hne, hq⟩
    exact ⟨i, List.mem_finRange i, by rwa [if_pos hne]⟩

theorem exists_nodeAt_above (hq : nodeAt h root (k + j) key = some q) :
    ∃ p, nodeAt h root k (key / 512 ^ j) = some p := by
  induction j generalizing key q with
  | zero => exact ⟨q, by simpa using hq⟩
  | succ j ih =>
    obtain ⟨p, hp, -⟩ := nodeAt_succ_eq_some.mp hq
    obtain ⟨c, hc⟩ := ih hp
    exact ⟨c, by rwa [pow_succ', ← Nat.div_div_eq_div_mul]⟩

theorem mem_treeNodes (hp : nodeAt h root k key = some p) :
    q ∈ treeNodes h n p ↔
      ∃ j key', j ≤ n ∧ key' / 512 ^ j = key ∧ nodeAt h root (k + j) key' = some q := by
  induction n generalizing k key p with
  | zero =>
    rw [treeNodes, List.mem_singleton]
    constructor
    · rintro rfl
      exact ⟨0, key, le_rfl, by simp, hp⟩
    · rintro ⟨j, key', hj, hkey, hq⟩
      obtain rfl : j = 0 := Nat.le_zero.mp hj
      obtain rfl : key' = key := by simpa using hkey
      exact Option.some.inj (hq.symm.trans hp)
  | succ n ih =>
    have hdiv : ∀ j key', key' / 512 ^ (j + 1) = key' / 512 ^ j / 512 := fun j key' => by
      rw [pow_succ, Nat.div_div_eq_div_mul]
    rw [mem_treeNodes_succ]
    constructor
    · rintro (⟨i, hne, hq⟩ | rfl)
      · have hchild := (nodeAt_child hp i).trans (lookupTable_eq_some.mpr ⟨rfl, hne⟩)
        obtain ⟨j, key', hj, hkey, hq⟩ := (ih hchild).mp hq
        refine ⟨j + 1, key', by omega, ?_, ?_⟩
        · rw [hdiv, hkey, child_div]
        · rwa [show k + (j + 1) = k + 1 + j by omega]
      · exact ⟨0, key, Nat.zero_le _, by simp, hp⟩
    · rintro ⟨j, key', hj, hkey, hq⟩
      cases j with
      | zero =>
        obtain rfl : key' = key := by simpa using hkey
        exact Or.inr (Option.some.inj (hq.symm.trans hp))
      | succ j =>
        rw [hdiv] at hkey
        rw [show k + (j + 1) = k + 1 + j by omega] at hq
        obtain ⟨c, hc⟩ := exists_nodeAt_above hq
        have hslot := child_eq_iff.mpr ⟨hkey, rfl⟩
        rw [hslot, nodeAt_child hp, lookupTable_eq_some] at hc
        obtain ⟨rfl, hne⟩ := hc
        have hchild := (nodeAt_child hp _).trans (lookupTable_eq_some.mpr ⟨rfl, hne⟩)
        exact Or.inl ⟨_, hne, (ih hchild).mpr ⟨j, key', by omega, hslot, hq⟩⟩

theorem mem_treeNodes_root (h : Heap) (root q : Ptr) :
    q ∈ treeNodes h 3 root ↔ IsNode h root q := by
  have hroot : nodeAt h root 0 0 = some root := rfl
  rw [mem_treeNodes hroot]
  constructor
  · rintro ⟨j, key, hj, -, hq⟩
    exact ⟨j, key, hj, by rwa [Nat.zero_add] at hq⟩
  · rintro ⟨j, key, hj, hq⟩
    exact ⟨j, key, hj, Nat.div_eq_of_lt (nodeAt_lt hq), by rwa [Nat.zero_add]⟩

theorem nodup_treeNodes (hl : Linked h root) (hk : k + n ≤ 3)
    (hp : nodeAt h root k key = some p) : (treeNodes h n p).Nodup := by
  induction n generalizing k key p with
  | zero => exact List.nodup_singleton p
  | succ n ih =>
    have hchild : ∀ i, (h.node p).entries i ≠ 0 →
        nodeAt h root (k + 1) (512 * key + i.val) = some ((h.node p).entries i) :=
      fun i hne => (nodeAt_child hp i).trans (lookupTable_eq_some.mpr ⟨rfl, hne⟩)
    refine List.Nodup.append (List.nodup_flatMap.mpr ⟨fun i _ => ?_, ?_⟩)
      (List.nodup_singleton p) ?_
    · split
      · next hne => exact ih (by omega) (hchild i hne)
      · exact List.nodup_nil
    · -- a node below two entries would have two addresses
      refine (List.nodup_finRange 512).imp fun {i i'} hii q hq hq' => hii ?_
      dsimp only at hq hq'
      split at hq
      · next hne =>
        split at hq'
        · next hne' =>
          obtain ⟨j, key₁, hj, hkey₁, hq⟩ := (mem_treeNodes (hchild i hne)).mp hq
          obtain ⟨j', key₂, hj', hkey₂, hq'⟩ := (mem_treeNodes (hchild i' hne')).mp hq'
          obtain ⟨hjj, rfl⟩ := hl.injective (by omega) (by omega) hq hq'
          obtain rfl : j = j' := by omega
          exact Fin.ext (by omega)
        · cases hq'
      · cases hq
    · intro q hq hqp
      obtain rfl := List.mem_singleton.mp hqp
      obtain ⟨i, -, hq⟩ := List.mem_flatMap.mp hq
      split at hq
      · next hne =>
        obtain ⟨j, key', hj, -, hq⟩ := (mem_treeNodes (hchild i hne)).mp hq
        obtain ⟨hkk, -⟩ := hl.injective (by omega) (by omega) hp hq
        omega
      · cases hq

end Nodes

/-! ## Dropping -/

/-- A slot of the table is marked as being read ahead. -/
def Marked (h : Heap) (root : Ptr) : Prop := ∃ k, nodeAt h root 4 k = some kMagicInPrefetch

section Drop

variable {h : Heap} {root p : Ptr} {n k key : ℕ}

variable {f : PageTableIndex → Except Halt (List ℕ)} {is : List PageTableIndex}
  {t : RemotePageTable}

theorem dropAll_ok {g : PageTableIndex → List ℕ} (hf : ∀ i ∈ is, f i = .ok (g i)) :
    dropAll f is = .ok (is.flatMap g) := by
  induction is with
  | nil => rfl
  | cons i is ih =>
    rw [dropAll, hf i List.mem_cons_self, ih fun j hj => hf j (List.mem_cons_of_mem i hj)]
    rfl

theorem dropAll_error {i : PageTableIndex} (hi : i ∈ is) (hf : ∃ e, f i = .error e) :
    ∃ e, dropAll f is = .error e := by
  induction is with
  | nil => cases hi
  | cons i' is ih =>
    rw [dropAll]
    cases hone : f i' with
    | error e => exact ⟨e, rfl⟩
    | ok freed =>
      rcases List.mem_cons.mp hi with rfl | hi
      · obtain ⟨e, he⟩ := hf
        rw [hone] at he
        cases he
      · obtain ⟨e, he⟩ := ih hi
        exact ⟨e, by rw [he]; rfl⟩

theorem dropEntry_ok {entry : PhysAddr} (hne : entry ≠ kMagicInPrefetch) :
    ∃ pages, dropEntry entry = .ok pages := by
  unfold dropEntry
  rw [if_neg hne]
  split
  · split
    · exact ⟨_, rfl⟩
    · exact ⟨_, rfl⟩
  · exact ⟨_, rfl⟩

theorem freeNode_eq (hl : Linked h root) (hmark : ¬ Marked h root) (hk : k + n = 3)
    (hp : nodeAt h root k key = some p) : freeNode h (n + 1) p = .ok (treeNodes h n p) := by
  induction n generalizing k key p with
  | zero =>
    obtain rfl : k = 3 := hk
    have hslots : ∀ i ∈ List.finRange 512,
        (dropEntry ((h.node p).entries i)).map (fun _ => ([] : List Ptr)) = .ok [] := by
      intro i _
      have hne : (h.node p).entries i ≠ kMagicInPrefetch := by
        intro heq
        refine hmark ⟨512 * key + i.val, ?_⟩
        rw [nodeAt_child hp, ← heq]
        exact lookupTable_eq_some.mpr ⟨rfl, by rw [heq]; decide⟩
      obtain ⟨pages, hpages⟩ := dropEntry_ok hne
      rw [hpages]
      rfl
    rw [freeNode, hl.level 3 key p le_rfl hp]
    dsimp only [levelAt, PageTableLevel.nextLowerLevel]
    rw [dropAll_ok hslots, List.flatMap_eq_nil_iff.mpr fun _ _ => rfl]
    rfl
  | succ n ih =>
    rw [freeNode, hl.level k key p (by omega) hp, levelAt_nextLowerLevel (by omega)]
    dsimp only
    rw [dropAll_ok (g := fun i => if (h.node p).entries i ≠ 0 then
      treeNodes h n ((h.node p).entries i) else [])]
    · rfl
    · intro i _
      split
      · next hne =>
        exact ih (by omega) ((nodeAt_child hp i).trans (lookupTable_eq_some.mpr ⟨rfl, hne⟩))
      · rfl

theorem freeNode_error (hl : Linked h root) (hk : k + n = 3)
    (hp : nodeAt h root k key = some p) {slot : ℕ} (hslot : slot / 512 ^ (n + 1) = key)
    (hmark : nodeAt h root 4 slot = some kMagicInPrefetch) :
    ∃ e, freeNode h (n + 1) p = .error e := by
  induction n generalizing k key p with
  | zero =>
    obtain rfl : k = 3 := hk
    have hentry := nodeAt_child hp (.newTruncate slot)
    rw [← child_eq_iff.mpr ⟨by simpa using hslot, rfl⟩, hmark, eq_comm,
      lookupTable_eq_some] at hentry
    obtain ⟨e, he⟩ := dropAll_error (List.mem_finRange (PageTableIndex.newTruncate slot))
      (f := fun i => (dropEntry ((h.node p).entries i)).map fun _ => ([] : List Ptr))
      ⟨.panicked, by rw [hentry.1]; rfl⟩
    refine ⟨e, ?_⟩
    rw [freeNode, hl.level 3 key p le_rfl hp]
    dsimp only [levelAt, PageTableLevel.nextLowerLevel]
    rw [he]
    rfl
  | succ n ih =>
    -- the entry above the slot holds a node
    have hdiv : slot / 512 ^ (n + 1) / 512 = key := by
      rw [Nat.div_div_eq_div_mul, ← pow_succ, hslot]
    obtain ⟨c, hc⟩ := exists_nodeAt_above (k := k + 1) (j := n + 1)
      (by rwa [show k + 1 + (n + 1) = 4 by omega])
    have hkey := child_eq_iff.mpr ⟨hdiv, rfl⟩
    have hentry := nodeAt_child hp (.newTruncate (slot / 512 ^ (n + 1)))
    rw [← hkey, hc, eq_comm, lookupTable_eq_some] at hentry
    obtain ⟨e, he⟩ := ih (by omega) hc rfl
    obtain ⟨e, he⟩ := dropAll_error
      (List.mem_finRange (PageTableIndex.newTruncate (slot / 512 ^ (n + 1))))
      (f := fun i => if (h.node p).entries i ≠ 0 then
        freeNode h (n + 1) ((h.node p).entries i) else .ok [])
      ⟨e, by rw [hentry.1, if_pos hentry.2, he]⟩
    refine ⟨e, ?_⟩
    rw [freeNode, hl.level k key p (by omega) hp, levelAt_nextLowerLevel (by omega)]
    dsimp only
    rw [he]
    rfl

theorem freeTable_eq (hl : Linked h t.l4PageTable)
    (hmark : ¬ Marked h t.l4PageTable) :
    freeTable h t = .ok (treeNodes h 3 t.l4PageTable) :=
  freeNode_eq hl hmark (Nat.zero_add 3) (rfl : nodeAt h t.l4PageTable 0 0 = _)

theorem freeTable_error (hl : Linked h t.l4PageTable)
    (hmark : Marked h t.l4PageTable) : ∃ e, freeTable h t = .error e := by
  obtain ⟨slot, hslot⟩ := hmark
  exact freeNode_error hl (Nat.zero_add 3) (rfl : nodeAt h t.l4PageTable 0 0 = _)
    (Nat.div_eq_of_lt (nodeAt_lt hslot)) hslot

end Drop

/-! ## Copying -/

section Copy

variable {h h' : Heap} {hi lo p q : Ptr} {n : ℕ}

theorem length_treeNodes_succ (h : Heap) (n : ℕ) (p : Ptr) :
    (treeNodes h (n + 1) p).length = ((List.finRange 512).map fun i =>
      (if (h.node p).entries i ≠ 0 then treeNodes h n ((h.node p).entries i)
        else []).length).sum + 1 := by
  rw [treeNodes, List.length_append, List.length_flatMap, List.length_singleton]

theorem treeNodes_congr (hsame : ∀ r < hi, h'.node r = h.node r) (ht : Tree h hi n p) :
    treeNodes h' n p = treeNodes h n p := by
  induction n generalizing p with
  | zero => rfl
  | succ n ih =>
    obtain ⟨hlt, -, hbelow⟩ := ht
    rw [treeNodes, treeNodes, hsame p hlt]
    refine congrArg (· ++ [p]) (List.flatMap_congr fun i _ => ?_)
    split
    · next hne => exact ih (hbelow i hne)
    · rfl

theorem length_treeNodes_copies (hc : Copies h h' hi n lo p q) :
    (treeNodes h' n q).length = (treeNodes h n p).length := by
  induction n generalizing lo p q with
  | zero => rfl
  | succ n ih =>
    obtain ⟨-, -, -, hentries⟩ := hc
    rw [length_treeNodes_succ, length_treeNodes_succ]
    refine congrArg (·.sum + 1) (List.map_congr_left fun i _ => ?_)
    rcases hentries i with ⟨hzero, hzero'⟩ | ⟨hne, -, -, hbelow⟩
    · simp [hzero, hzero']
    · have hne' : (h'.node q).entries i ≠ 0 :=
        ((Nat.zero_lt_succ _).trans_le hbelow.bounds.1).ne'
      rw [if_pos hne, if_pos hne', ih hbelow]

theorem next_copyNode (copyLower : Heap → Ptr → Heap × Ptr) (size : PageTableIndex → ℕ)
    (hstep : ∀ visited h' i, Visited h p n visited h' → Visited h p n (i :: visited)
      (PageTable.copyEntry copyLower (h.node p).level h.next h' i ((h.node p).entries i)))
    (hsize : ∀ visited h' i, Visited h p n visited h' →
      (PageTable.copyEntry copyLower (h.node p).level h.next h' i
        ((h.node p).entries i)).next = h'.next + size i) :
    (PageTable.copyNode copyLower h p).1.next =
      h.next + ((List.finRange 512).map size).sum + 1 := by
  have hone : ∀ visited h' i, Visited h p n visited h' ∧
      h'.next = h.next + (visited.map size).sum + 1 →
      Visited h p n (i :: visited) (PageTable.copyEntry copyLower (h.node p).level h.next h' i
        ((h.node p).entries i)) ∧
      (PageTable.copyEntry copyLower (h.node p).level h.next h' i
        ((h.node p).entries i)).next = h.next + ((i :: visited).map size).sum + 1 := by
    rintro visited h' i ⟨hv, hnext⟩
    refine ⟨hstep visited h' i hv, ?_⟩
    rw [hsize visited h' i hv, hnext, List.map_cons, List.sum_cons, Nat.add_comm (size i),
      ← Nat.add_assoc, Nat.add_right_comm]
  have hnext := (foldl_visited _ ⟨visited_alloc h p n, rfl⟩ hone (List.finRange 512)).2
  rwa [List.map_reverse, List.sum_reverse] at hnext

theorem next_deepCopy (hn : n ≤ 3) (ht : Tree h h.next n p) :
    (PageTable.deepCopy n h p).1.next = h.next + (treeNodes h n p).length := by
  induction n generalizing h p with
  | zero =>
    have hstep : ∀ visited h' i, Visited h p 0 visited h' → Visited h p 0 (i :: visited)
        (PageTable.copyEntry (fun h src => (h, src)) (h.node p).level h.next h' i
          ((h.node p).entries i)) := by
      intro visited h' i hv
      rw [ht.2]
      exact hv.step_zero i
    have hnext := next_copyNode _ (fun _ => 0) hstep fun visited h' i _ => by
      rw [ht.2]
      rfl
    have hsum : ((List.finRange 512).map fun _ : PageTableIndex => 0).sum = 0 :=
      List.sum_eq_zero fun x hx => by
        obtain ⟨_, -, rfl⟩ := List.mem_map.mp hx
        rfl
    rw [PageTable.deepCopy, hnext, hsum]
    rfl
  | succ n ih =>
    have hlevel : (h.node p).level ≠ .one := by
      rw [ht.2.1]
      have : n ≤ 2 := by omega
      interval_cases n <;> simp [levelAt]
    have hlower : ∀ h p, Tree h h.next n p →
        Copied h (PageTable.deepCopy n h p).1 n p (PageTable.deepCopy n h p).2 :=
      fun h p => deepCopy_spec (by omega)
    have hnext := next_copyNode (PageTable.deepCopy n)
      (fun i => (if (h.node p).entries i ≠ 0 then
        treeNodes h n ((h.node p).entries i) else []).length)
      (fun visited h' i hv => hv.step_succ hlower ht hlevel i) fun visited h' i hv => by
        rw [copyEntry_of_ne_one hlevel]
        by_cases hzero : (h.node p).entries i = 0
        · simp [hzero]
        · have hbelow := ht.2.2 i hzero
          rw [if_neg hzero, if_pos hzero, ← treeNodes_congr hv.kept hbelow]
          exact ih (by omega) (hbelow.congr hv.next.le hv.kept)
    rw [PageTable.deepCopy, hnext, length_treeNodes_succ, Nat.add_assoc]

end Copy

/-! ## Nothing is leaked -/

/-- Between the two heaps the table has grown: it keeps its nodes and has all nodes that
were allocated. -/
structure Grows (h h' : Heap) (root : Ptr) : Prop where
  stays : ∀ p, IsNode h root p → IsNode h' root p
  fresh : ∀ p, h.next ≤ p → p < h'.next → IsNode h' root p

namespace Grows

variable {h h' h'' : Heap} {root : Ptr}

variable {t : RemotePageTable} {p : Ptr}

theorem trans (h₁ : Grows h h' root) (h₂ : Grows h' h'' root) : Grows h h'' root where
  stays p hp := h₂.stays p (h₁.stays p hp)
  fresh p hle hlt := by
    rcases Nat.lt_or_ge p h'.next with hold | hnew
    · exact h₂.stays p (h₁.fresh p hle hold)
    · exact h₂.fresh p hnew hlt

theorem of_nodeAt_eq (hnext : h'.next = h.next)
    (hsame : ∀ k key, k ≤ 3 → nodeAt h' root k key = nodeAt h root k key) :
    Grows h h' root where
  stays p hp := by
    obtain ⟨k, key, hk, hp⟩ := hp
    exact ⟨k, key, hk, by rwa [hsame k key hk]⟩
  fresh p hle hlt := absurd hlt (Nat.not_lt.mpr (hnext ▸ hle))

theorem refl (h : Heap) (root : Ptr) : Grows h h root := of_nodeAt_eq rfl fun _ _ _ => rfl

theorem setEntry (hl : Linked h root) {key : ℕ} (hp : nodeAt h root 3 key = some p)
    (i : PageTableIndex) (w : ℕ) : Grows h (h.setEntry p i w) root :=
  of_nodeAt_eq rfl fun _ key' hk => nodeAt_setEntry_levelOne hl hp i w hk key'

theorem createTable (hl : Linked h root) {k key : ℕ} (hk : k < 3)
    (hp : nodeAt h root k key = some p) (i : PageTableIndex) :
    Grows h (RemoteMapping.createTable h i p).1 root := by
  have hc := createTable_spec hl hk hp i
  constructor
  · rintro q ⟨k', key', hk', hq⟩
    exact ⟨k', key', hk', hc.kept k' key' q (by omega) hq⟩
  · intro q hle hlt
    cases hlook : lookupTable h i p with
    | some c =>
      rw [createTable_of_present hlook] at hlt
      exact absurd hlt (Nat.not_lt.mpr hle)
    | none =>
      rw [createTable_next hlook] at hlt
      obtain rfl : q = h.next := Nat.le_antisymm (Nat.le_of_lt_succ hlt) hle
      have hthere := hc.there
      rw [createTable_of_absent hlook] at hthere ⊢
      exact ⟨k + 1, _, hk, hthere⟩

theorem mapToTheL1 (hl : Linked h t.l4PageTable) (a : VirtAddr) :
    Grows h (t.mapToTheL1 h a).1 t.l4PageTable := by
  have hroot : nodeAt h t.l4PageTable 0 0 = some t.l4PageTable := rfl
  have c₃ := createTable_spec hl (by omega) hroot a.p4Index
  have c₂ := createTable_spec c₃.linked (by omega) c₃.there a.p3Index
  exact ((createTable hl (by omega) hroot a.p4Index).trans
    (createTable c₃.linked (by omega) c₃.there a.p3Index)).trans
    (createTable c₂.linked (by omega) c₂.there a.p2Index)

theorem assign (hl : Linked h t.l4PageTable) (a : VirtAddr) (w : ℕ) :
    Grows h ((t.mapToTheL1 h a).1.setEntry (t.mapToTheL1 h a).2 a.p1Index w) t.l4PageTable := by
  have hc := mapToTheL1_spec hl a
  exact (mapToTheL1 hl a).trans (setEntry hc.linked hc.levelOne a.p1Index w)

theorem step {s : Heap × RemotePageTable} (hw : WellFormed s.1 s.2.l4PageTable)
    (c : SlotCall) : Grows s.1 (slotMachine.step s c).1.1 s.2.l4PageTable := by
  obtain ⟨h, t⟩ := s
  cases c with
  | call c =>
    cases c with
    | map a w =>
      simp only [slotMachine, tableMachine, RemotePageTable.map]
      split
      · exact assign hw.toLinked a w
      · exact mapToTheL1 hw.toLinked a
    | forceMap a w => exact assign hw.toLinked a w
  | overwrite a w =>
    simp only [slotMachine]
    cases hfind : t.findL1PageIdx h a with
    | none => exact refl h _
    | some slot =>
      obtain ⟨p, i⟩ := slot
      exact setEntry hw.toLinked (findL1PageIdx_eq_some.mp hfind).1 i w

end Grows

variable {t : RemotePageTable} {h : Heap}

theorem next_copy (hl : Linked h t.l4PageTable) :
    (t.copy h).1.next = h.next + (treeNodes h 3 t.l4PageTable).length := by
  have hroot : nodeAt h t.l4PageTable 0 0 = some t.l4PageTable := rfl
  rw [← next_deepCopy le_rfl (hl.tree (Nat.zero_add 3) hroot)]
  rfl

/-- A copy has all nodes that were allocated for it: there are as many as it needs. -/
theorem isNode_copy (hl : Linked h t.l4PageTable) {p : Ptr}
    (hle : h.next ≤ p) (hlt : p < (t.copy h).1.next) :
    IsNode (t.copy h).1 (t.copy h).2.l4PageTable p := by
  have hc := copied_copy hl
  have hcount := length_treeNodes_copies hc.copies
  set nodes := treeNodes (t.copy h).1 3 (t.copy h).2.l4PageTable
  have hnodup : nodes.Nodup :=
    nodup_treeNodes (hc.linked hl) le_rfl (rfl : nodeAt _ _ 0 0 = some _)
  have hlength : (t.copy h).1.next = h.next + nodes.length := by rw [hcount, next_copy hl]
  have hsub : nodes.toFinset ⊆ Finset.Ico h.next (t.copy h).1.next := by
    intro q hq
    have hnode := (mem_treeNodes_root _ _ _).mp (List.mem_toFinset.mp hq)
    exact Finset.mem_Ico.mpr ⟨next_le_of_isNode_copy hl hnode, (hc.linked hl).isNode_lt hnode⟩
  have heq : nodes.toFinset = Finset.Ico h.next (t.copy h).1.next := by
    refine Finset.eq_of_subset_of_card_le hsub ?_
    rw [List.toFinset_card_of_nodup hnodup, Nat.card_Ico, hlength, Nat.add_sub_cancel_left]
  rw [← mem_treeNodes_root, ← List.mem_toFinset]
  exact heq ▸ Finset.mem_Ico.mpr ⟨hle, hlt⟩

end Mitosis.Prefetcher
