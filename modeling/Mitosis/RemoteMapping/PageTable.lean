import Mitosis.RemoteMapping.PhysAddr
import Mathlib.Data.List.Range
import Mathlib.Logic.Function.Basic

/-!
# The remote page table

`RemotePageTable` emulates the four-level page table of x86.  Its nodes live
on the kernel heap and are linked by raw words: an entry of a level-four,
three or two node is a pointer to a node, an entry of a level-one node is a
page-table word, and the word zero stands for an absent entry at every level.
Each node also records the node above it and its index there.

The heap is explicit.  The allocator hands out a pointer it has not handed out
before, and never the null pointer.
-/

namespace Mitosis.RemoteMapping

/-- A raw pointer to a page-table node; zero is the null pointer. -/
abbrev Ptr := ℕ

inductive PageTableLevel where
  | one
  | two
  | three
  | four
deriving DecidableEq, Repr

/-- The next lower level, or none for level one. -/
def PageTableLevel.nextLowerLevel : PageTableLevel → Option PageTableLevel
  | four => some three
  | three => some two
  | two => some one
  | one => none

structure PageTable where
  entries : PageTableIndex → ℕ
  level : PageTableLevel
  upperLevel : Ptr
  upperLevelIndex : PageTableIndex

namespace PageTable

def new (level : PageTableLevel) (upper : Ptr) (idx : PageTableIndex) :
    PageTable :=
  ⟨fun _ => 0, level, upper, idx⟩

/-- The first index from `startIdx` on whose entry is not zero. -/
@[irreducible]
def findValidEntry (pt : PageTable) (startIdx : ℕ) : Option PageTableIndex :=
  (List.finRange 512).find? fun i =>
    decide (startIdx ≤ i.val) && decide (pt.entries i ≠ 0)

def set (pt : PageTable) (idx : PageTableIndex) (w : ℕ) : PageTable :=
  { pt with entries := Function.update pt.entries idx w }

@[simp] theorem set_level (pt : PageTable) (idx : PageTableIndex) (w : ℕ) :
    (pt.set idx w).level = pt.level := rfl

@[simp] theorem set_upperLevel
    (pt : PageTable) (idx : PageTableIndex) (w : ℕ) :
    (pt.set idx w).upperLevel = pt.upperLevel := rfl

@[simp] theorem set_upperLevelIndex
    (pt : PageTable) (idx : PageTableIndex) (w : ℕ) :
    (pt.set idx w).upperLevelIndex = pt.upperLevelIndex := rfl

@[simp] theorem set_entries_self
    (pt : PageTable) (idx : PageTableIndex) (w : ℕ) :
    (pt.set idx w).entries idx = w := by
  simp [set]

theorem set_entries_of_ne
    (pt : PageTable) {idx i : PageTableIndex} (w : ℕ) (h : i ≠ idx) :
    (pt.set idx w).entries i = pt.entries i := by
  simp [set, h]

theorem findValidEntry_eq_some {pt : PageTable} {startIdx : ℕ}
    {i : PageTableIndex} (h : pt.findValidEntry startIdx = some i) :
    startIdx ≤ i.val ∧ pt.entries i ≠ 0 ∧
      ∀ j : PageTableIndex, startIdx ≤ j.val → j < i → pt.entries j = 0 := by
  unfold findValidEntry at h
  have hi := List.find?_some h
  simp only [Bool.and_eq_true, decide_eq_true_eq] at hi
  refine ⟨hi.1, hi.2, ?_⟩
  intro j hj hlt
  by_contra hne
  obtain ⟨hp, k, hk, hget, hbefore⟩ := List.find?_eq_some_iff_getElem.mp h
  have hik : i.val = k := by
    rw [← hget]
    simp
  have hjk : j.val < k := by
    rw [← hik]
    exact hlt
  have hnot := hbefore j.val hjk
  simp [hj, hne] at hnot

theorem findValidEntry_eq_none {pt : PageTable} {startIdx : ℕ} :
    pt.findValidEntry startIdx = none ↔
      ∀ j : PageTableIndex, startIdx ≤ j.val → pt.entries j = 0 := by
  unfold findValidEntry
  rw [List.find?_eq_none]
  simp

end PageTable

/-- The kernel heap, as far as it holds page-table nodes. -/
structure Heap where
  node : Ptr → PageTable
  next : Ptr
  next_pos : 0 < next

namespace Heap

/-- A heap on which nothing has been allocated. -/
def empty : Heap := ⟨fun _ => PageTable.new .one 0 0, 1, Nat.one_pos⟩

def alloc (h : Heap) (pt : PageTable) : Heap × Ptr :=
  (⟨Function.update h.node h.next pt, h.next + 1, Nat.succ_pos _⟩, h.next)

def setEntry (h : Heap) (p : Ptr) (idx : PageTableIndex) (w : ℕ) : Heap :=
  { h with node := Function.update h.node p ((h.node p).set idx w) }

@[simp] theorem setEntry_next
    (h : Heap) (p : Ptr) (idx : PageTableIndex) (w : ℕ) :
    (h.setEntry p idx w).next = h.next := rfl

@[simp] theorem setEntry_node_self
    (h : Heap) (p : Ptr) (idx : PageTableIndex) (w : ℕ) :
    (h.setEntry p idx w).node p = (h.node p).set idx w := by
  simp [setEntry]

theorem setEntry_node_of_ne
    (h : Heap) {p q : Ptr} (idx : PageTableIndex) (w : ℕ) (hq : q ≠ p) :
    (h.setEntry p idx w).node q = h.node q := by
  simp [setEntry, hq]

@[simp] theorem setEntry_level
    (h : Heap) (p q : Ptr) (idx : PageTableIndex) (w : ℕ) :
    ((h.setEntry p idx w).node q).level = (h.node q).level := by
  by_cases hq : q = p
  · subst q
    simp
  · rw [setEntry_node_of_ne h idx w hq]

@[simp] theorem setEntry_upperLevel
    (h : Heap) (p q : Ptr) (idx : PageTableIndex) (w : ℕ) :
    ((h.setEntry p idx w).node q).upperLevel = (h.node q).upperLevel := by
  by_cases hq : q = p
  · subst q
    simp
  · rw [setEntry_node_of_ne h idx w hq]

@[simp] theorem setEntry_upperLevelIndex
    (h : Heap) (p q : Ptr) (idx : PageTableIndex) (w : ℕ) :
    ((h.setEntry p idx w).node q).upperLevelIndex =
      (h.node q).upperLevelIndex := by
  by_cases hq : q = p
  · subst q
    simp
  · rw [setEntry_node_of_ne h idx w hq]

theorem setEntry_entries_of_ne
    (h : Heap) {p q : Ptr} {idx i : PageTableIndex} (w : ℕ)
    (hne : q ≠ p ∨ i ≠ idx) :
    ((h.setEntry p idx w).node q).entries i = (h.node q).entries i := by
  by_cases hq : q = p
  · subst q
    rw [setEntry_node_self,
      PageTable.set_entries_of_ne _ w (hne.resolve_left (by simp))]
  · rw [setEntry_node_of_ne h idx w hq]

end Heap

def lookupTable (h : Heap) (index : PageTableIndex) (src : Ptr) : Option Ptr :=
  let res := (h.node src).entries index
  if res = 0 then none else some res

/-- Create an empty node below `src`.  The `unwrap` of the lower level is only
reached for nodes above level one. -/
def newFromUpper (h : Heap) (src : Ptr) (idx : PageTableIndex) : Heap × Ptr :=
  let lower := ((h.node src).level.nextLowerLevel).getD .one
  h.alloc (PageTable.new lower src idx)

/-- Look up the next-level node and create it if it is absent. -/
def createTable (h : Heap) (index : PageTableIndex) (src : Ptr) : Heap × Ptr :=
  let nextLevel := (h.node src).entries index
  if nextLevel = 0 then
    let (h', fresh) := newFromUpper h src index
    (h'.setEntry src index fresh, fresh)
  else
    (h, nextLevel)

/-- A forked page table: its level-four node and the number of mapped pages. -/
structure RemotePageTable where
  l4PageTable : Ptr
  cnt : ℕ
deriving DecidableEq

namespace RemotePageTable

def new (h : Heap) : Heap × RemotePageTable :=
  let (h', root) := h.alloc (PageTable.new .four 0 0)
  (h', ⟨root, 0⟩)

def len (t : RemotePageTable) : ℕ := t.cnt

/-- Whether all entries of the level-four node are zero. -/
def isEmpty (h : Heap) (t : RemotePageTable) : Bool :=
  (List.finRange 512).all fun i => (h.node t.l4PageTable).entries i == 0

def findL1PageIdx (h : Heap) (t : RemotePageTable) (addr : VirtAddr) :
    Option (Ptr × PageTableIndex) := do
  let l3 ← lookupTable h addr.p4Index t.l4PageTable
  let l2 ← lookupTable h addr.p3Index l3
  let l1 ← lookupTable h addr.p2Index l2
  some (l1, addr.p1Index)

def translate (h : Heap) (t : RemotePageTable) (addr : VirtAddr) :
    Option PhysAddr := do
  let (pt, index) ← findL1PageIdx h t addr
  if (h.node pt).entries index ≠ 0 then
    some ((h.node pt).entries index)
  else
    none

/-- The level-one node of an address, created with the nodes above it if it is
absent. -/
def mapToTheL1 (h : Heap) (t : RemotePageTable) (addr : VirtAddr) :
    Heap × Ptr :=
  let (h₃, l3) := createTable h addr.p4Index t.l4PageTable
  let (h₂, l2) := createTable h₃ addr.p3Index l3
  createTable h₂ addr.p2Index l2

/-- Add a mapping unless the page is mapped; an existing word is returned. -/
def map (h : Heap) (t : RemotePageTable) (addr : VirtAddr) (phy : PhysAddr) :
    (Heap × RemotePageTable) × Option PhysAddr :=
  let (h', l1) := mapToTheL1 h t addr
  let res := (h'.node l1).entries addr.p1Index
  if res = 0 then
    ((h'.setEntry l1 addr.p1Index phy, { t with cnt := t.cnt + 1 }), none)
  else
    ((h', t), some res)

/-- Add a mapping and overwrite an existing one. -/
def forceMap (h : Heap) (t : RemotePageTable) (addr : VirtAddr)
    (phy : PhysAddr) : Heap × RemotePageTable :=
  let (h', l1) := mapToTheL1 h t addr
  let res := (h'.node l1).entries addr.p1Index
  (h'.setEntry l1 addr.p1Index phy,
    if res = 0 then { t with cnt := t.cnt + 1 } else t)

end RemotePageTable

end Mitosis.RemoteMapping
