import Mitosis.RemoteMapping.WellFormed

/-!
# Mapping pages

`mapToTheL1` creates the missing nodes on the path of an address; `map` and
`forceMap` then write one level-one slot.  The lemmas here say once what these
operations do to the addresses of the table: the path is there afterwards,
everything that was there stays, and only the written slot changes its word.
-/

namespace Mitosis.RemoteMapping

variable {h : Heap} {root : Ptr}

theorem inhabited_iff {k : ℕ} :
    Inhabited h root k ↔
      ∀ key p, nodeAt h root k key = some p →
        ∃ key' c, key' / 512 = key ∧ nodeAt h root (k + 1) key' = some c := by
  constructor
  · intro hi key p hp
    obtain ⟨i, hne⟩ := hi key p hp
    refine ⟨512 * key + i.val, (h.node p).entries i, child_div key i, ?_⟩
    rw [nodeAt_child hp]
    exact lookupTable_eq_some.mpr ⟨rfl, hne⟩
  · intro hi key p hp
    obtain ⟨key', c, rfl, hc⟩ := hi key p hp
    obtain ⟨q, hq, hentry, hne⟩ := nodeAt_succ_eq_some.mp hc
    rw [hp] at hq
    cases hq
    exact ⟨.newTruncate key', by rwa [hentry]⟩

/-- What `createTable` does below the node at depth `k` and key `key`. -/
structure Created (h h' : Heap) (root : Ptr) (k key : ℕ) (c : Ptr) :
    Prop where
  linked : Linked h' root
  there : nodeAt h' root k key = some c
  kept : ∀ k' key' q, k' ≤ 4 → nodeAt h root k' key' = some q →
    nodeAt h' root k' key' = some q
  added : ∀ k' key' q, k' ≤ 4 → nodeAt h' root k' key' = some q →
    nodeAt h root k' key' = some q ∨ (k' = k ∧ key' = key)
  unchanged : ∀ q, nodeAt h root k key = some q → h' = h

theorem createTable_spec (hl : Linked h root)
    {k key : ℕ} {p : Ptr} (hk : k < 3) (hp : nodeAt h root k key = some p)
    (i : PageTableIndex) :
    Created h (createTable h i p).1 root (k + 1) (512 * key + i.val)
      (createTable h i p).2 := by
  have hchild := nodeAt_child hp i
  cases hc : lookupTable h i p with
  | some c =>
    rw [createTable_of_present hc]
    exact ⟨hl, hchild.trans hc, fun _ _ _ _ hq => hq,
      fun _ _ _ _ hq => Or.inl hq, fun _ _ => rfl⟩
  | none =>
    have hnode := fun {k' : ℕ} (hk' : k' ≤ 4) (key' : ℕ) =>
      nodeAt_createTable hl hk hp hc hk' key'
    refine ⟨hl.createTable_absent hk hp hc, ?_, ?_, ?_, ?_⟩
    · rw [hnode (by omega), if_pos ⟨rfl, rfl⟩, createTable_of_absent hc]
    · intro k' key' q hk' hq
      rw [hnode hk', if_neg]
      · exact hq
      · rintro ⟨rfl, rfl⟩
        rw [hchild, hc] at hq
        cases hq
    · intro k' key' q hk' hq
      rw [hnode hk'] at hq
      split at hq
      · next heq => exact Or.inr heq
      · exact Or.inl hq
    · intro q hq
      rw [hchild, hc] at hq
      cases hq

/-- What creating the whole path of an address does.  `slot` is the page key
of the address, so the node of depth `k` on its path has the key
`slot / 512 ^ (4 - k)`. -/
structure PathCreated (h h' : Heap) (root : Ptr) (slot : ℕ) (l1 : Ptr) :
    Prop where
  linked : Linked h' root
  levelOne : nodeAt h' root 3 (slot / 512) = some l1
  kept : ∀ k key q, k ≤ 4 → nodeAt h root k key = some q →
    nodeAt h' root k key = some q
  added : ∀ k key q, k ≤ 4 → nodeAt h' root k key = some q →
    nodeAt h root k key = some q ∨ (k < 4 ∧ key = slot / 512 ^ (4 - k))
  unchanged : ∀ q, nodeAt h root 3 (slot / 512) = some q → h' = h

variable {t : RemotePageTable}

theorem mapToTheL1_spec (hl : Linked h t.l4PageTable) (a : VirtAddr) :
    PathCreated h (t.mapToTheL1 h a).1 t.l4PageTable a.pageKey
      (t.mapToTheL1 h a).2 := by
  have hlt := a.pageKey_lt
  -- the keys along the path, from the root down
  have hkey3 : 512 * 0 + a.p4Index.val = a.pageKey / 512 / 512 / 512 := by
    rw [a.p4Index_eq, newTruncate_val]
    omega
  have hkey2 : 512 * (a.pageKey / 512 / 512 / 512) + a.p3Index.val =
      a.pageKey / 512 / 512 := by
    rw [a.p3Index_eq, newTruncate_val]
    omega
  have hkey1 : 512 * (a.pageKey / 512 / 512) + a.p2Index.val =
      a.pageKey / 512 := by
    rw [a.p2Index_eq, newTruncate_val]
    omega
  have hroot : nodeAt h t.l4PageTable 0 0 = some t.l4PageTable := rfl
  have h₃ := createTable_spec hl (by omega) hroot a.p4Index
  rw [hkey3] at h₃
  have h₂ := createTable_spec h₃.linked (by omega) h₃.there a.p3Index
  rw [hkey2] at h₂
  have h₁ := createTable_spec h₂.linked (by omega) h₂.there a.p2Index
  rw [hkey1] at h₁
  refine ⟨h₁.linked, h₁.there, ?_, ?_, ?_⟩
  · intro k key q hk hq
    exact h₁.kept k key q hk (h₂.kept k key q hk (h₃.kept k key q hk hq))
  · intro k key q hk hq
    rcases h₁.added k key q hk hq with hq | ⟨rfl, rfl⟩
    · rcases h₂.added k key q hk hq with hq | ⟨rfl, rfl⟩
      · rcases h₃.added k key q hk hq with hq | ⟨rfl, rfl⟩
        · exact Or.inl hq
        · exact Or.inr ⟨by omega, by norm_num [Nat.div_div_eq_div_mul]⟩
      · exact Or.inr ⟨by omega, by norm_num [Nat.div_div_eq_div_mul]⟩
    · exact Or.inr ⟨by omega, by norm_num⟩
  · intro q hq
    obtain ⟨l2, hl2, -⟩ := nodeAt_succ_eq_some.mp hq
    obtain ⟨l3, hl3, -⟩ := nodeAt_succ_eq_some.mp hl2
    have e₃ := h₃.unchanged l3 hl3
    have e₂ := h₂.unchanged l2 (h₃.kept _ _ _ (by omega) hl2)
    have e₁ := h₁.unchanged q
      (h₂.kept _ _ _ (by omega) (h₃.kept _ _ _ (by omega) hq))
    exact e₁.trans (e₂.trans e₃)

namespace PathCreated

variable {h h' : Heap} {root : Ptr} {slot : ℕ} {l1 : Ptr}

theorem nodeAt_four (hc : PathCreated h h' root slot l1) (key : ℕ) :
    nodeAt h' root 4 key = nodeAt h root 4 key := by
  cases hnew : nodeAt h' root 4 key with
  | some q =>
    rcases hc.added 4 key q (by omega) hnew with hq | ⟨hlt, -⟩
    · exact hq.symm
    · omega
  | none =>
    cases hold : nodeAt h root 4 key with
    | none => rfl
    | some q => rw [hc.kept 4 key q (by omega) hold] at hnew; cases hnew

/-- Inner nodes stay inhabited: old ones keep their entries and new ones have
the rest of the path below them. -/
theorem inhabited (hc : PathCreated h h' root slot l1) {k : ℕ} (hk : k < 3)
    (hi : Inhabited h root k) : Inhabited h' root k := by
  rw [inhabited_iff] at hi ⊢
  intro key p hp
  rcases hc.added k key p (by omega) hp with hold | ⟨-, rfl⟩
  · obtain ⟨key', c, hkey', hchild⟩ := hi key p hold
    exact ⟨key', c, hkey', hc.kept (k + 1) key' c (by omega) hchild⟩
  · refine ⟨slot / 512 ^ (3 - k), ?_⟩
    have hdiv : slot / 512 ^ (3 - k) / 512 = slot / 512 ^ (4 - k) := by
      rw [Nat.div_div_eq_div_mul, ← pow_succ]
      congr 2
      omega
    have hpath : ∃ c, nodeAt h' root (k + 1) (slot / 512 ^ (3 - k)) =
        some c := by
      obtain ⟨l2, hl2, -⟩ := nodeAt_succ_eq_some.mp hc.levelOne
      obtain ⟨l3, hl3, -⟩ := nodeAt_succ_eq_some.mp hl2
      simp only [Nat.div_div_eq_div_mul] at hl2 hl3
      interval_cases k
      · exact ⟨l3, hl3⟩
      · exact ⟨l2, hl2⟩
      · exact ⟨l1, by simpa using hc.levelOne⟩
    obtain ⟨c, hchild⟩ := hpath
    exact ⟨c, hdiv, hchild⟩

theorem wellFormed (hc : PathCreated h h' root slot l1)
    (hw : WellFormed h root) : WellFormed h' root where
  toLinked := hc.linked
  inhabitedOne := hc.inhabited (by omega) hw.inhabitedOne
  inhabitedTwo := hc.inhabited (by omega) hw.inhabitedTwo

end PathCreated

/-! ## Lookups -/

theorem findL1PageIdx_eq (h : Heap) (t : RemotePageTable) (a : VirtAddr) :
    t.findL1PageIdx h a =
      (nodeAt h t.l4PageTable 3 (a.pageKey / 512)).map
        fun p => (p, PageTableIndex.newTruncate a.pageKey) := by
  have hlt := a.pageKey_lt
  have hzero : a.pageKey / 512 / 512 / 512 / 512 = 0 := by omega
  simp only [RemotePageTable.findL1PageIdx, nodeAt, hzero, if_true,
    a.p4Index_eq, a.p3Index_eq, a.p2Index_eq, a.p1Index_eq,
    Option.bind_some]
  cases lookupTable h (.newTruncate (a.pageKey / 512 / 512 / 512))
      t.l4PageTable with
  | none => rfl
  | some l3 =>
    cases h₂ : lookupTable h (.newTruncate (a.pageKey / 512 / 512)) l3 with
    | none => simp [h₂]
    | some l2 =>
      cases h₁ : lookupTable h (.newTruncate (a.pageKey / 512)) l2 with
      | none => simp [h₂, h₁]
      | some l1 => simp [h₂, h₁]

theorem translate_eq (h : Heap) (t : RemotePageTable) (a : VirtAddr) :
    t.translate h a = nodeAt h t.l4PageTable 4 a.pageKey := by
  rw [nodeAt_succ, RemotePageTable.translate, findL1PageIdx_eq]
  cases nodeAt h t.l4PageTable 3 (a.pageKey / 512) with
  | none => rfl
  | some p => simp [lookupTable]

/-! ## The mapping operations -/

/-- The table after one slot was given a word. -/
structure Assigned (h h' : Heap) (root : Ptr) (slot w : ℕ) : Prop where
  wellFormed : WellFormed h' root
  words : ∀ key, nodeAt h' root 4 key =
    if key = slot then (if w = 0 then none else some w)
    else nodeAt h root 4 key
  levelOne : ∀ key p, nodeAt h' root 3 key = some p →
    nodeAt h root 3 key = some p ∨ key = slot / 512

variable {a : VirtAddr}

theorem assigned_of_path {h h' : Heap} {slot : ℕ} {l1 : Ptr}
    (hw : WellFormed h root) (hc : PathCreated h h' root slot l1) (w : ℕ) :
    Assigned h (h'.setEntry l1 (.newTruncate slot) w) root slot w := by
  refine ⟨(hc.wellFormed hw).setEntry_levelOne hc.levelOne _ w, ?_, ?_⟩
  · intro key
    rw [nodeAt_four_setEntry hc.linked hc.levelOne]
    have hslot : 512 * (slot / 512) +
        (PageTableIndex.newTruncate slot).val = slot := by
      rw [newTruncate_val]
      omega
    rw [hslot, hc.nodeAt_four]
  · intro key p hp
    rw [nodeAt_setEntry_levelOne hc.linked hc.levelOne _ w (by omega)] at hp
    rcases hc.added 3 key p (by omega) hp with hold | ⟨-, rfl⟩
    · exact Or.inl hold
    · exact Or.inr (by norm_num)

theorem entry_after_path (hw : WellFormed h t.l4PageTable) :
    ((t.mapToTheL1 h a).1.node (t.mapToTheL1 h a).2).entries a.p1Index =
      (t.translate h a).getD 0 := by
  have hc := mapToTheL1_spec hw.toLinked a
  rw [translate_eq, ← hc.nodeAt_four, nodeAt_succ, hc.levelOne, a.p1Index_eq]
  simp only [Option.bind_some, lookupTable]
  split
  · next hzero => rw [hzero]; rfl
  · rfl

theorem map_of_absent (hw : WellFormed h t.l4PageTable) (habs : t.translate h a = none)
    (w : PhysAddr) :
    (t.map h a w).2 = none ∧ (t.map h a w).1.2.l4PageTable = t.l4PageTable ∧
      (t.map h a w).1.2.cnt = t.cnt + 1 ∧
        Assigned h (t.map h a w).1.1 t.l4PageTable a.pageKey w := by
  have hentry := entry_after_path (a := a) hw
  rw [habs, Option.getD_none] at hentry
  have hmap : t.map h a w =
      (((t.mapToTheL1 h a).1.setEntry (t.mapToTheL1 h a).2 a.p1Index w,
        { t with cnt := t.cnt + 1 }), none) := by
    simp [RemotePageTable.map, hentry]
  rw [hmap, a.p1Index_eq]
  exact ⟨rfl, rfl, rfl,
    assigned_of_path hw (mapToTheL1_spec hw.toLinked a) w⟩

theorem map_of_present {w₀ : PhysAddr} (hw : WellFormed h t.l4PageTable)
    (hpres : t.translate h a = some w₀) (w : PhysAddr) :
    t.map h a w = ((h, t), some w₀) := by
  have hentry := entry_after_path (a := a) hw
  have hword := hpres
  rw [translate_eq] at hword
  obtain ⟨p, hp, -, hne⟩ := nodeAt_succ_eq_some.mp hword
  rw [hpres, Option.getD_some] at hentry
  have hsame := (mapToTheL1_spec hw.toLinked a).unchanged p hp
  rw [hsame] at hentry
  simp only [RemotePageTable.map, hsame, hentry, if_neg hne]

theorem forceMap_spec (hw : WellFormed h t.l4PageTable) (w : PhysAddr) :
    (t.forceMap h a w).2.l4PageTable = t.l4PageTable ∧
      (t.forceMap h a w).2.cnt =
        (if t.translate h a = none then t.cnt + 1 else t.cnt) ∧
        Assigned h (t.forceMap h a w).1 t.l4PageTable a.pageKey w := by
  have hentry := entry_after_path (a := a) hw
  have hassigned := assigned_of_path hw (mapToTheL1_spec hw.toLinked a) w
  rw [← a.p1Index_eq] at hassigned
  cases htr : t.translate h a with
  | none =>
    rw [htr, Option.getD_none] at hentry
    simp [RemotePageTable.forceMap, hentry, hassigned]
  | some w₀ =>
    have hne : w₀ ≠ 0 := by
      rw [translate_eq] at htr
      exact nodeAt_ne_zero hw.root_ne htr
    rw [htr, Option.getD_some] at hentry
    simp [RemotePageTable.forceMap, hentry, hne, hassigned]

theorem forceMap_of_levelOne {p : Ptr}
    (hw : WellFormed h t.l4PageTable)
    (hp : nodeAt h t.l4PageTable 3 (a.pageKey / 512) = some p) (w : PhysAddr) :
    (t.forceMap h a w).1 = h.setEntry p (.newTruncate a.pageKey) w := by
  have hc := mapToTheL1_spec hw.toLinked a
  have hsame := hc.unchanged p hp
  have hnode := hc.levelOne
  rw [hsame, hp, Option.some.injEq] at hnode
  simp only [RemotePageTable.forceMap, hsame, ← hnode, a.p1Index_eq]

/-! ## The new table -/

theorem nodeAt_new (h : Heap) (k key : ℕ) :
    nodeAt (RemotePageTable.new h).1 (RemotePageTable.new h).2.l4PageTable
        (k + 1) key = none := by
  induction k generalizing key with
  | zero =>
    rw [nodeAt_succ]
    by_cases hkey : key / 512 = 0
    · simp [nodeAt, hkey, lookupTable, RemotePageTable.new, Heap.alloc,
        PageTable.new]
    · simp [nodeAt, hkey]
  | succ k ih =>
    rw [nodeAt_succ, ih]
    rfl

theorem wellFormed_new (h : Heap) :
    WellFormed (RemotePageTable.new h).1
      (RemotePageTable.new h).2.l4PageTable := by
  have hroot : (RemotePageTable.new h).2.l4PageTable = h.next := rfl
  have hnext : (RemotePageTable.new h).1.next = h.next + 1 := rfl
  have hnode : (RemotePageTable.new h).1.node h.next =
      PageTable.new .four 0 0 := by
    simp [RemotePageTable.new, Heap.alloc]
  have hzero : ∀ key p, nodeAt (RemotePageTable.new h).1
      (RemotePageTable.new h).2.l4PageTable 0 key = some p →
        p = h.next := by
    intro key p hp
    simp only [nodeAt, Option.ite_none_right_eq_some,
      Option.some.injEq] at hp
    exact hp.2.symm
  refine ⟨⟨?_, ?_, ?_, ?_, ?_⟩, ?_, ?_⟩
  · rw [hroot]
    exact h.next_pos.ne'
  · rw [hroot, hnode]
    rfl
  · intro k key p _ hp
    cases k with
    | zero =>
      rw [hzero key p hp, hnext]
      exact Nat.lt_succ_self _
    | succ k => rw [nodeAt_new] at hp; cases hp
  · intro k key p _ hp
    cases k with
    | zero =>
      rw [hzero key p hp, hnode]
      rfl
    | succ k => rw [nodeAt_new] at hp; cases hp
  · intro k key p c _ _ hc
    rw [nodeAt_new] at hc
    cases hc
  · intro key p hp
    rw [nodeAt_new] at hp
    cases hp
  · intro key p hp
    rw [nodeAt_new] at hp
    cases hp

end Mitosis.RemoteMapping
