import Mitosis.RemoteMapping.PageTable
import Mathlib.Tactic.IntervalCases

/-!
# The shape of a remote page table

The nodes of a table are addressed by depth and key: the key of a node is the
number its path spells in base 512, so that the entry `i` of the node with key
`n` has key `512 * n + i` one depth further down.  Depth three are the
level-one nodes, and depth four are the page-table words themselves.

`Linked` says that levels and back pointers agree with these addresses.  Back
pointers make the table a tree: two addresses never lead to one node.
-/

namespace Mitosis.RemoteMapping

/-- The node at the given depth and key, or the mapped word at depth four. -/
def nodeAt (h : Heap) (root : Ptr) : ℕ → ℕ → Option Ptr
  | 0, key => if key = 0 then some root else none
  | k + 1, key =>
    (nodeAt h root k (key / 512)).bind
      (lookupTable h (.newTruncate key))

/-- The level of the nodes at a depth. -/
def levelAt : ℕ → PageTableLevel
  | 0 => .four
  | 1 => .three
  | 2 => .two
  | _ => .one

variable {k : ℕ} {i : PageTableIndex} {h : Heap} {p root : Ptr}

theorem levelAt_injective {k k' : ℕ} (hk : k ≤ 3) (hk' : k' ≤ 3)
    (h : levelAt k = levelAt k') : k = k' := by
  interval_cases k <;> interval_cases k' <;> simp_all [levelAt]

theorem levelAt_nextLowerLevel (hk : k < 3) :
    (levelAt k).nextLowerLevel = some (levelAt (k + 1)) := by
  interval_cases k <;> rfl

@[simp] theorem newTruncate_val (n : ℕ) :
    (PageTableIndex.newTruncate n).val = n % 512 := rfl

@[simp] theorem newTruncate_child (key : ℕ) (i : PageTableIndex) :
    PageTableIndex.newTruncate (512 * key + i.val) = i := by
  apply Fin.ext
  simp only [newTruncate_val]
  omega

theorem child_div (key : ℕ) (i : PageTableIndex) :
    (512 * key + i.val) / 512 = key := by
  omega

theorem child_eq_iff {key key' : ℕ} :
    key' = 512 * key + i.val ↔
      key' / 512 = key ∧ PageTableIndex.newTruncate key' = i := by
  rw [Fin.ext_iff, newTruncate_val]
  omega

theorem lookupTable_eq_some {p c : Ptr} :
    lookupTable h i p = some c ↔ (h.node p).entries i = c ∧ c ≠ 0 := by
  unfold lookupTable
  dsimp only
  split
  · next hzero =>
    simp only [reduceCtorEq, false_iff, not_and, not_not]
    intro hc
    exact hc.symm.trans hzero
  · next hne =>
    rw [Option.some.injEq]
    constructor
    · rintro rfl
      exact ⟨rfl, hne⟩
    · exact fun hc => hc.1

theorem lookupTable_eq_none :
    lookupTable h i p = none ↔ (h.node p).entries i = 0 := by
  simp [lookupTable]

theorem lookupTable_setEntry (h : Heap) (p q : Ptr) (i j : PageTableIndex) (w : ℕ) :
    lookupTable (h.setEntry p i w) j q =
      if q = p ∧ j = i then (if w = 0 then none else some w)
      else lookupTable h j q := by
  unfold lookupTable
  split
  · next heq =>
    obtain ⟨rfl, rfl⟩ := heq
    simp
  · next hne =>
    rw [h.setEntry_entries_of_ne w (by tauto)]

theorem nodeAt_succ (h : Heap) (root : Ptr) (k key : ℕ) :
    nodeAt h root (k + 1) key =
      (nodeAt h root k (key / 512)).bind
        (lookupTable h (.newTruncate key)) := rfl

theorem nodeAt_succ_eq_some {k key : ℕ} {c : Ptr} :
    nodeAt h root (k + 1) key = some c ↔
      ∃ p, nodeAt h root k (key / 512) = some p ∧
        (h.node p).entries (.newTruncate key) = c ∧ c ≠ 0 := by
  simp only [nodeAt_succ, Option.bind_eq_some_iff, lookupTable_eq_some]

theorem nodeAt_child {k key : ℕ}
    (hp : nodeAt h root k key = some p) (i : PageTableIndex) :
    nodeAt h root (k + 1) (512 * key + i.val) = lookupTable h i p := by
  rw [nodeAt_succ, child_div, hp, newTruncate_child]
  rfl

theorem nodeAt_lt {k key : ℕ}
    (hp : nodeAt h root k key = some p) : key < 512 ^ k := by
  induction k generalizing key p with
  | zero =>
    simp only [nodeAt, Option.ite_none_right_eq_some] at hp
    simp [hp.1]
  | succ k ih =>
    obtain ⟨q, hq, -⟩ := nodeAt_succ_eq_some.mp hp
    have hlt := ih hq
    rw [pow_succ]
    omega

theorem nodeAt_ne_zero {k key : ℕ}
    (hroot : root ≠ 0) (hp : nodeAt h root k key = some p) : p ≠ 0 := by
  cases k with
  | zero =>
    simp only [nodeAt, Option.ite_none_right_eq_some,
      Option.some.injEq] at hp
    rw [← hp.2]
    exact hroot
  | succ k =>
    obtain ⟨-, -, -, hne⟩ := nodeAt_succ_eq_some.mp hp
    exact hne

/-- Levels and back pointers agree with the addresses of the nodes. -/
structure Linked (h : Heap) (root : Ptr) : Prop where
  root_ne : root ≠ 0
  rootUpper : (h.node root).upperLevel = 0
  allocated : ∀ k key p, k ≤ 3 → nodeAt h root k key = some p → p < h.next
  level : ∀ k key p, k ≤ 3 → nodeAt h root k key = some p →
    (h.node p).level = levelAt k
  upper : ∀ k key p c, k < 3 → nodeAt h root k (key / 512) = some p →
    nodeAt h root (k + 1) key = some c →
      (h.node c).upperLevel = p ∧
        (h.node c).upperLevelIndex = .newTruncate key

/-- Every node at depth `k` has an entry. -/
def Inhabited (h : Heap) (root : Ptr) (k : ℕ) : Prop :=
  ∀ key p, nodeAt h root k key = some p → ∃ i, (h.node p).entries i ≠ 0

/-- The invariant of a remote page table: nodes between the root and level one
are never empty, level-one nodes may be. -/
structure WellFormed (h : Heap) (root : Ptr) : Prop extends
    Linked h root where
  inhabitedOne : Inhabited h root 1
  inhabitedTwo : Inhabited h root 2

namespace Linked

variable {h : Heap} {root : Ptr}

theorem injective (hl : Linked h root) {k k' key key' : ℕ}
    (hk : k ≤ 3) (hk' : k' ≤ 3)
    (hp : nodeAt h root k key = some p)
    (hp' : nodeAt h root k' key' = some p) :
    k = k' ∧ key = key' := by
  have hkk : k = k' := by
    apply levelAt_injective hk hk'
    rw [← hl.level k key p hk hp, ← hl.level k' key' p hk' hp']
  subst k'
  refine ⟨rfl, ?_⟩
  -- climb both paths at once: equal nodes have equal back pointers
  induction k generalizing key key' p with
  | zero =>
    have h₁ := nodeAt_lt hp
    have h₂ := nodeAt_lt hp'
    simp only [pow_zero, Nat.lt_one_iff] at h₁ h₂
    omega
  | succ k ih =>
    obtain ⟨q, hq, -⟩ := nodeAt_succ_eq_some.mp hp
    obtain ⟨q', hq', -⟩ := nodeAt_succ_eq_some.mp hp'
    obtain ⟨hup, hidx⟩ := hl.upper k key q p (by omega) hq hp
    obtain ⟨hup', hidx'⟩ := hl.upper k key' q' p (by omega) hq' hp'
    rw [hup.symm.trans hup'] at hq
    have hdiv := ih (by omega) hq (by omega) hq'
    have hmod := congrArg Fin.val (hidx.symm.trans hidx')
    simp only [newTruncate_val] at hmod
    omega

theorem key_eq (hl : Linked h root) {k key key' : ℕ}
    (hk : k ≤ 3) (hp : nodeAt h root k key = some p)
    (hp' : nodeAt h root k key' = some p) : key = key' :=
  (hl.injective hk hk hp hp').2

end Linked

/-! ## Updating a level-one slot -/

variable {key : ℕ}

/-- Writing a slot of a level-one node changes the table at that slot only. -/
theorem nodeAt_setEntry_levelOne (hl : Linked h root) (hp : nodeAt h root 3 key = some p)
    (i : PageTableIndex) (w : ℕ) (hk : k ≤ 3) (key' : ℕ) :
    nodeAt (h.setEntry p i w) root k key' = nodeAt h root k key' := by
  induction k generalizing key' with
  | zero => rfl
  | succ k ih =>
    rw [nodeAt_succ, nodeAt_succ, ih (by omega)]
    cases hq : nodeAt h root k (key' / 512) with
    | none => rfl
    | some q =>
      have hne : q ≠ p := by
        rintro rfl
        have := (hl.injective (by omega) (by omega) hq hp).1
        omega
      simp only [Option.bind_some]
      rw [lookupTable_setEntry, if_neg (fun heq => hne heq.1)]

theorem nodeAt_four_setEntry (hl : Linked h root) (hp : nodeAt h root 3 key = some p)
    (i : PageTableIndex) (w : ℕ) (slot : ℕ) :
    nodeAt (h.setEntry p i w) root 4 slot =
      if slot = 512 * key + i.val then (if w = 0 then none else some w)
      else nodeAt h root 4 slot := by
  rw [nodeAt_succ h root 3, nodeAt_succ _ root 3,
    nodeAt_setEntry_levelOne hl hp i w (by omega)]
  split
  · next hslot =>
    obtain ⟨hdiv, hidx⟩ := child_eq_iff.mp hslot
    rw [hdiv, hp, hidx, Option.bind_some, lookupTable_setEntry,
      if_pos ⟨rfl, rfl⟩]
  · next hslot =>
    generalize hq : nodeAt h root 3 (slot / 512) = o
    cases o with
    | none => rfl
    | some q =>
      rw [Option.bind_some, Option.bind_some, lookupTable_setEntry, if_neg]
      rintro ⟨rfl, hidx⟩
      exact hslot (child_eq_iff.mpr ⟨hl.key_eq (by omega) hq hp, hidx⟩)

theorem Linked.setEntry_levelOne (hl : Linked h root) (hp : nodeAt h root 3 key = some p)
    (i : PageTableIndex) (w : ℕ) : Linked (h.setEntry p i w) root where
  root_ne := hl.root_ne
  rootUpper := by simpa using hl.rootUpper
  allocated k key' q hk hq := by
    rw [nodeAt_setEntry_levelOne hl hp i w hk] at hq
    exact hl.allocated k key' q hk hq
  level k key' q hk hq := by
    rw [nodeAt_setEntry_levelOne hl hp i w hk] at hq
    simpa using hl.level k key' q hk hq
  upper k key' q c hk hq hc := by
    rw [nodeAt_setEntry_levelOne hl hp i w (by omega)] at hq hc
    simpa using hl.upper k key' q c hk hq hc

theorem Inhabited.setEntry_levelOne (hi : Inhabited h root k)
    (hl : Linked h root)
    (hp : nodeAt h root 3 key = some p) (hk : k < 3)
    (i : PageTableIndex) (w : ℕ) : Inhabited (h.setEntry p i w) root k := by
  intro key' q hq
  rw [nodeAt_setEntry_levelOne hl hp i w (by omega)] at hq
  obtain ⟨j, hj⟩ := hi key' q hq
  refine ⟨j, ?_⟩
  have hne : q ≠ p := by
    rintro rfl
    have := (hl.injective (by omega) (by omega) hq hp).1
    omega
  rwa [h.setEntry_node_of_ne i w hne]

theorem WellFormed.setEntry_levelOne (hw : WellFormed h root) (hp : nodeAt h root 3 key = some p)
    (i : PageTableIndex) (w : ℕ) : WellFormed (h.setEntry p i w) root where
  toLinked := hw.toLinked.setEntry_levelOne hp i w
  inhabitedOne :=
    hw.inhabitedOne.setEntry_levelOne hw.toLinked hp (by omega) i w
  inhabitedTwo :=
    hw.inhabitedTwo.setEntry_levelOne hw.toLinked hp (by omega) i w

/-! ## Creating the nodes of a path -/

theorem createTable_of_present {p c : Ptr}
    (hc : lookupTable h i p = some c) : createTable h i p = (h, c) := by
  obtain ⟨hentry, hne⟩ := lookupTable_eq_some.mp hc
  simp [createTable, hentry, hne]

theorem createTable_of_absent (hc : lookupTable h i p = none) :
    createTable h i p =
      ((newFromUpper h p i).1.setEntry p i h.next, h.next) := by
  have hentry := lookupTable_eq_none.mp hc
  simp [createTable, hentry, newFromUpper, Heap.alloc]

theorem newFromUpper_node_of_ne
    (h : Heap) (p : Ptr) (i : PageTableIndex) {q : Ptr} (hq : q ≠ h.next) :
    (newFromUpper h p i).1.node q = h.node q := by
  simp [newFromUpper, Heap.alloc, hq]

theorem lookupTable_createTable {i j : PageTableIndex} {p q : Ptr}
    (hc : lookupTable h i p = none) (hq : q ≠ h.next) :
    lookupTable (createTable h i p).1 j q =
      if q = p ∧ j = i then some h.next else lookupTable h j q := by
  rw [createTable_of_absent hc, lookupTable_setEntry,
    if_neg h.next_pos.ne']
  unfold lookupTable
  rw [newFromUpper_node_of_ne h p i hq]

theorem lookupTable_createTable_fresh {i j : PageTableIndex}
    (hc : lookupTable h i p = none) (hp : p ≠ h.next) :
    lookupTable (createTable h i p).1 j h.next = none := by
  rw [createTable_of_absent hc, lookupTable_setEntry,
    if_neg (fun heq => hp heq.1.symm)]
  simp [lookupTable, newFromUpper, Heap.alloc, PageTable.new]

/-- Creating an absent node adds its address and no other. -/
theorem nodeAt_createTable (hl : Linked h root)
    {k key : ℕ} (hk : k < 3) (hp : nodeAt h root k key = some p) (hc : lookupTable h i p = none)
    {k' : ℕ} (hk' : k' ≤ 4) (key' : ℕ) :
    nodeAt (createTable h i p).1 root k' key' =
      if k' = k + 1 ∧ key' = 512 * key + i.val then some h.next
      else nodeAt h root k' key' := by
  have hpne : p ≠ h.next := (hl.allocated k key p (by omega) hp).ne
  induction k' generalizing key' with
  | zero => simp [nodeAt]
  | succ k' ih =>
    rw [nodeAt_succ, ih (by omega)]
    split
    · next hfresh =>
      -- the fresh node is empty, and its address was absent before
      obtain ⟨rfl, hkey⟩ := hfresh
      rw [if_neg (by omega), nodeAt_succ, hkey, nodeAt_child hp, hc,
        Option.bind_some, lookupTable_createTable_fresh hc hpne]
      rfl
    · next hold =>
      cases hq : nodeAt h root k' (key' / 512) with
      | none =>
        have hnot : ¬(k' + 1 = k + 1 ∧ key' = 512 * key + i.val) := by
          rintro ⟨hkk, hkey⟩
          rw [Nat.succ.inj hkk, (child_eq_iff.mp hkey).1, hp] at hq
          cases hq
        rw [if_neg hnot, nodeAt_succ, hq]
        rfl
      | some q =>
        have hqne : q ≠ h.next :=
          (hl.allocated k' _ q (by omega) hq).ne
        rw [nodeAt_succ, hq, Option.bind_some, Option.bind_some,
          lookupTable_createTable hc hqne]
        have hhere : q = p ∧ PageTableIndex.newTruncate key' = i ↔
            k' + 1 = k + 1 ∧ key' = 512 * key + i.val := by
          rw [child_eq_iff]
          constructor
          · rintro ⟨rfl, hidx⟩
            obtain ⟨hkk, hkey⟩ :=
              hl.injective (by omega) (by omega) hq hp
            exact ⟨by omega, hkey, hidx⟩
          · rintro ⟨hkk, hdiv, hidx⟩
            rw [Nat.succ.inj hkk, hdiv, hp] at hq
            exact ⟨(Option.some.inj hq).symm, hidx⟩
        exact if_congr hhere rfl rfl

theorem createTable_level_of_ne {p q : Ptr}
    (hc : lookupTable h i p = none) (hq : q ≠ h.next) :
    ((createTable h i p).1.node q).level = (h.node q).level := by
  rw [createTable_of_absent hc, Heap.setEntry_level,
    newFromUpper_node_of_ne h p i hq]

theorem createTable_upper_of_ne {p q : Ptr}
    (hc : lookupTable h i p = none) (hq : q ≠ h.next) :
    ((createTable h i p).1.node q).upperLevel = (h.node q).upperLevel ∧
      ((createTable h i p).1.node q).upperLevelIndex =
        (h.node q).upperLevelIndex := by
  rw [createTable_of_absent hc, Heap.setEntry_upperLevel,
    Heap.setEntry_upperLevelIndex, newFromUpper_node_of_ne h p i hq]
  exact ⟨rfl, rfl⟩

theorem createTable_next (hc : lookupTable h i p = none) :
    (createTable h i p).1.next = h.next + 1 := by
  rw [createTable_of_absent hc]
  rfl

theorem createTable_fresh (hl : Linked h root)
    {k key : ℕ} (hk : k < 3) (hp : nodeAt h root k key = some p) (hc : lookupTable h i p = none) :
    ((createTable h i p).1.node h.next).level = levelAt (k + 1) ∧
      ((createTable h i p).1.node h.next).upperLevel = p ∧
        ((createTable h i p).1.node h.next).upperLevelIndex = i := by
  have hlevel := hl.level k key p (by omega) hp
  rw [createTable_of_absent hc, Heap.setEntry_level,
    Heap.setEntry_upperLevel, Heap.setEntry_upperLevelIndex]
  simp [newFromUpper, Heap.alloc, PageTable.new, hlevel,
    levelAt_nextLowerLevel hk]

theorem Linked.createTable_absent (hl : Linked h root)
    {k key : ℕ} (hk : k < 3) (hp : nodeAt h root k key = some p) (hc : lookupTable h i p = none) :
    Linked (createTable h i p).1 root := by
  have hroot : nodeAt h root 0 0 = some root := rfl
  have hrootNe : root ≠ h.next :=
    (hl.allocated 0 0 root (by omega) hroot).ne
  obtain ⟨hfl, hfu, hfi⟩ := createTable_fresh hl hk hp hc
  refine ⟨hl.root_ne, ?_, ?_, ?_, ?_⟩
  · rw [(createTable_upper_of_ne hc hrootNe).1]
    exact hl.rootUpper
  · intro k' key' q hk' hq
    rw [createTable_next hc]
    rw [nodeAt_createTable hl hk hp hc (by omega)] at hq
    split at hq
    · cases hq
      exact Nat.lt_succ_self _
    · exact Nat.lt_succ_of_lt (hl.allocated k' key' q hk' hq)
  · intro k' key' q hk' hq
    rw [nodeAt_createTable hl hk hp hc (by omega)] at hq
    split at hq
    · next heq =>
      cases hq
      rw [heq.1]
      exact hfl
    · rw [createTable_level_of_ne hc (hl.allocated k' key' q hk' hq).ne]
      exact hl.level k' key' q hk' hq
  · intro k' key' q c hk' hq hchild
    rw [nodeAt_createTable hl hk hp hc (by omega)] at hq hchild
    split at hchild
    · next heq =>
      cases hchild
      obtain ⟨hkk, hkey⟩ := heq
      obtain ⟨hdiv, hidx⟩ := child_eq_iff.mp hkey
      have hkk' : k' = k := Nat.succ.inj hkk
      subst k'
      rw [if_neg (fun heq => absurd heq.1 (by omega)), hdiv, hp] at hq
      cases hq
      exact ⟨hfu, hfi.trans hidx.symm⟩
    · next hold =>
      have hcNe := (hl.allocated (k' + 1) key' c (by omega) hchild).ne
      rw [(createTable_upper_of_ne hc hcNe).1,
        (createTable_upper_of_ne hc hcNe).2]
      split at hq
      · next heq =>
        -- an old node cannot hang below the fresh one
        obtain ⟨rfl, hkey⟩ := heq
        rw [nodeAt_succ, hkey, nodeAt_child hp, hc] at hchild
        cases hchild
      · exact hl.upper k' key' q c hk' hq hchild

end Mitosis.RemoteMapping
