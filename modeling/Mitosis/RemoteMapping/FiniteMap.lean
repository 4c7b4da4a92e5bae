import Mathlib.Data.Finmap
import Mitosis.Support.Machine
import Mitosis.RemoteMapping.Mapping

/-!
# The page table as a finite map

What a `RemotePageTable` is for: a finite map from virtual page numbers to
words, into which `map` inserts absent pages and `forceMap` any page.  Every
run of the two calls on a new table refines the same run on the finite map.
-/

namespace Mitosis.RemoteMapping

open Support (Machine)

inductive MapCall where
  | map (addr : VirtAddr) (phy : PhysAddr)
  | forceMap (addr : VirtAddr) (phy : PhysAddr)
deriving DecidableEq

def MapCall.word : MapCall → PhysAddr
  | .map _ phy => phy
  | .forceMap _ phy => phy

/-- The calls on the radix tree. -/
def tableMachine :
    Machine (Heap × RemotePageTable) MapCall (Option PhysAddr) where
  step
    | (h, t), .map a w => t.map h a w
    | (h, t), .forceMap a w => (t.forceMap h a w, none)

/-- A finite map from virtual page numbers to words. -/
abbrev PageMap := Finmap fun _ : ℕ => PhysAddr

def VirtAddr.pageNumber (a : VirtAddr) : ℕ := a.addr / 4096

/-- The calls on the finite map. -/
def pageMapMachine : Machine PageMap MapCall (Option PhysAddr) where
  step
    | m, .map a w =>
      match m.lookup a.pageNumber with
      | some w₀ => (m, some w₀)
      | none => (m.insert a.pageNumber w, none)
    | m, .forceMap a w => (m.insert a.pageNumber w, none)

/-- The finite map that a page table stands for. -/
structure Represents (h : Heap) (t : RemotePageTable) (m : PageMap) :
    Prop where
  wellFormed : WellFormed h t.l4PageTable
  inhabitedThree : Inhabited h t.l4PageTable 3
  translate : ∀ a, t.translate h a = m.lookup a.pageNumber
  keys : ∀ k ∈ m.keys, ∃ a : VirtAddr, k = a.pageNumber
  count : t.cnt = m.keys.card

theorem represents_new (h : Heap) :
    Represents (RemotePageTable.new h).1 (RemotePageTable.new h).2 ∅ where
  wellFormed := wellFormed_new h
  inhabitedThree := by
    intro key p hp
    rw [nodeAt_new] at hp
    cases hp
  translate := by
    intro a
    rw [translate_eq, nodeAt_new, Finmap.lookup_empty]
  keys := by
    intro k hk
    simp at hk
  count := rfl

theorem Assigned.inhabitedThree {h h' : Heap} {root : Ptr} {slot w : ℕ}
    (ha : Assigned h h' root slot w) (hw : w ≠ 0)
    (hi : Inhabited h root 3) : Inhabited h' root 3 := by
  have hslot : nodeAt h' root 4 slot = some w := by
    rw [ha.words, if_pos rfl, if_neg hw]
  rw [inhabited_iff] at hi ⊢
  intro key p hp
  rcases ha.levelOne key p hp with hold | rfl
  · obtain ⟨key', c, hdiv, hc⟩ := hi key p hold
    by_cases hkey : key' = slot
    · exact ⟨key', w, hdiv, by rw [hkey, hslot]⟩
    · refine ⟨key', c, hdiv, ?_⟩
      rw [ha.words, if_neg hkey]
      exact hc
  · exact ⟨slot, w, rfl, hslot⟩

theorem Represents.assigned {h h' : Heap} {t t' : RemotePageTable}
    {m : PageMap} (hr : Represents h t m) {a : VirtAddr} {w : PhysAddr}
    (hw : w ≠ 0) (hroot : t'.l4PageTable = t.l4PageTable)
    (hcnt : t'.cnt = if t.translate h a = none then t.cnt + 1 else t.cnt)
    (ha : Assigned h h' t.l4PageTable a.pageKey w) :
    Represents h' t' (m.insert a.pageNumber w) := by
  have hkeys : (m.insert a.pageNumber w).keys =
      insert a.pageNumber m.keys := by
    ext k
    rw [Finmap.mem_keys, Finmap.mem_insert, Finset.mem_insert,
      Finmap.mem_keys]
  refine ⟨hroot ▸ ha.wellFormed, hroot ▸ ha.inhabitedThree hw
    hr.inhabitedThree, ?_, ?_, ?_⟩
  · intro b
    rw [translate_eq, hroot, ha.words]
    by_cases hb : b.pageKey = a.pageKey
    · have hpage : b.pageNumber = a.pageNumber :=
        (VirtAddr.pageKey_eq_iff b a).mp hb
      rw [if_pos hb, if_neg hw, hpage, Finmap.lookup_insert]
    · have hpage : b.pageNumber ≠ a.pageNumber := fun heq =>
        hb ((VirtAddr.pageKey_eq_iff b a).mpr heq)
      rw [if_neg hb, Finmap.lookup_insert_of_ne m hpage, ← hr.translate b,
        translate_eq]
  · intro k hk
    rw [hkeys, Finset.mem_insert] at hk
    rcases hk with rfl | hk
    · exact ⟨a, rfl⟩
    · exact hr.keys k hk
  · rw [hcnt, hkeys, hr.translate, hr.count]
    by_cases hmem : a.pageNumber ∈ m.keys
    · rw [Finset.insert_eq_of_mem hmem, if_neg]
      rwa [Finmap.lookup_eq_none, ← Finmap.mem_keys, not_not]
    · rw [Finset.card_insert_of_notMem hmem, if_pos]
      rwa [Finmap.lookup_eq_none, ← Finmap.mem_keys]

/-- One call keeps the table and the finite map in step. -/
theorem Represents.step {h : Heap} {t : RemotePageTable} {m : PageMap}
    (hr : Represents h t m) (c : MapCall) (hc : c.word ≠ 0) :
    Represents (tableMachine.step (h, t) c).1.1
        (tableMachine.step (h, t) c).1.2 (pageMapMachine.step m c).1 ∧
      (tableMachine.step (h, t) c).2 = (pageMapMachine.step m c).2 := by
  cases c with
  | map a w =>
    simp only [tableMachine, pageMapMachine]
    cases hlook : m.lookup a.pageNumber with
    | some w₀ =>
      have htr := (hr.translate a).trans hlook
      rw [map_of_present hr.wellFormed htr]
      exact ⟨hr, rfl⟩
    | none =>
      have htr := (hr.translate a).trans hlook
      obtain ⟨hout, hroot, hcnt, ha⟩ :=
        map_of_absent hr.wellFormed htr w
      exact ⟨hr.assigned hc hroot (by rw [hcnt, if_pos htr]) ha, hout⟩
  | forceMap a w =>
    obtain ⟨hroot, hcnt, ha⟩ := forceMap_spec (a := a) hr.wellFormed w
    exact ⟨hr.assigned hc hroot hcnt ha, rfl⟩

/-- The level-four node is all zero exactly when no page is mapped: below
every node of the tree there is a mapped page. -/
theorem Represents.isEmpty_iff {h : Heap} {t : RemotePageTable}
    {m : PageMap} (hr : Represents h t m) :
    t.isEmpty h = true ↔ m = ∅ := by
  have hzero : t.isEmpty h = true ↔
      ∀ i, (h.node t.l4PageTable).entries i = 0 := by
    simp [RemotePageTable.isEmpty]
  rw [hzero]
  constructor
  · intro hall
    apply Finmap.ext_lookup
    intro k
    rw [Finmap.lookup_empty, Finmap.lookup_eq_none, ← Finmap.mem_keys]
    intro hk
    obtain ⟨a, rfl⟩ := hr.keys k hk
    obtain ⟨w, hlook⟩ := Finmap.mem_iff.mp (Finmap.mem_keys.mp hk)
    have hword := hr.translate a
    rw [hlook, translate_eq] at hword
    obtain ⟨l1, hl1, -⟩ := nodeAt_succ_eq_some.mp hword
    obtain ⟨l2, hl2, -⟩ := nodeAt_succ_eq_some.mp hl1
    obtain ⟨l3, hl3, -⟩ := nodeAt_succ_eq_some.mp hl2
    obtain ⟨p, hp, hentry, hne⟩ := nodeAt_succ_eq_some.mp hl3
    simp only [nodeAt, Option.ite_none_right_eq_some,
      Option.some.injEq] at hp
    rw [← hentry, ← hp.2, hall] at hne
    exact hne rfl
  · rintro rfl i
    by_contra hne
    have hl3 : nodeAt h t.l4PageTable 1 (512 * 0 + i.val) =
        some ((h.node t.l4PageTable).entries i) := by
      rw [nodeAt_child (by rfl)]
      exact lookupTable_eq_some.mpr ⟨rfl, hne⟩
    obtain ⟨key₂, l2, -, hl2⟩ :=
      inhabited_iff.mp hr.wellFormed.inhabitedOne _ _ hl3
    obtain ⟨key₁, l1, -, hl1⟩ :=
      inhabited_iff.mp hr.wellFormed.inhabitedTwo _ _ hl2
    obtain ⟨key, w, -, hw⟩ := inhabited_iff.mp hr.inhabitedThree _ _ hl1
    have hlt : key < 2 ^ 36 := by
      have := nodeAt_lt hw
      norm_num at this ⊢
      exact this
    have habs := hr.translate (VirtAddr.ofPageKey key)
    rw [translate_eq, VirtAddr.pageKey_ofPageKey hlt, hw,
      Finmap.lookup_empty] at habs
    cases habs

/-- Every run of `map` and `forceMap` calls with non-zero words on a new table
behaves as the same run on a finite map keyed by virtual page number: it gives
the same answers, `translate` is the lookup, `map` on a mapped page changes
nothing, `len` counts the mapped pages and `isEmpty` says that there are
none. -/
theorem pageTable_refines_pageMap
    (h : Heap) (calls : List MapCall) (hwords : ∀ c ∈ calls, c.word ≠ 0) :
    let s := tableMachine.run (RemotePageTable.new h) calls
    let m := pageMapMachine.run ∅ calls
    tableMachine.outputs (RemotePageTable.new h) calls =
        pageMapMachine.outputs ∅ calls ∧
      (∀ a w, s.2.translate s.1 a = some w ↔
        m.lookup (a.addr / 4096) = some w) ∧
      (∀ a w w₀, m.lookup (a.addr / 4096) = some w₀ →
        s.2.map s.1 a w = (s, some w₀)) ∧
      s.2.len = m.keys.card ∧
      (s.2.isEmpty s.1 = true ↔ m = ∅) := by
  intro s m
  obtain ⟨hr, hout⟩ := Machine.simulation
    (M := tableMachine) (N := pageMapMachine)
    (fun s m c (hr : Represents s.1 s.2 m) hc => hr.step c hc)
    (represents_new h) hwords
  refine ⟨hout, ?_, ?_, hr.count, hr.isEmpty_iff⟩
  · intro a w
    rw [hr.translate a]
    rfl
  · intro a w w₀ hlook
    exact map_of_present hr.wellFormed ((hr.translate a).trans hlook) w

/-- Two calls on one page: the second finds the first one's word. -/
theorem pageTable_refines_pageMap_twice :
    let a : VirtAddr := ⟨4096, by decide⟩
    let b : VirtAddr := ⟨4104, by decide⟩
    let calls := [MapCall.map a 8192, MapCall.map b 12288]
    let s := tableMachine.run (RemotePageTable.new Heap.empty) calls
    (∀ c ∈ calls, c.word ≠ 0) ∧ s.2.len = 1 ∧
      s.2.translate s.1 b = some 8192 := by
  intro a b calls s
  have hwords : ∀ c ∈ calls, c.word ≠ 0 := by decide
  obtain ⟨-, htr, -, hlen, -⟩ := pageTable_refines_pageMap _ calls hwords
  exact ⟨hwords, hlen.trans (by decide), (htr b 8192).mpr (by decide)⟩

end Mitosis.RemoteMapping
