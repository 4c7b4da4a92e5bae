import Mitosis.RemoteMapping.Copy
import Mitosis.RemoteMapping.SlotOrder

/-!
# Tables that share no node

What a table translates and what its iterators yield is decided by its own
nodes.  A mapping call or a slot assignment writes nodes of its table and new
ones, so a table that shares no node with it stays as it is.  A copy is such a
table.
-/

namespace Mitosis.RemoteMapping

open Support (Machine IsNext Enumerates)

/-- A node of a table, from the root down to level one. -/
def IsNode (h : Heap) (root p : Ptr) : Prop :=
  ∃ k key, k ≤ 3 ∧ nodeAt h root k key = some p

variable {h : Heap}

theorem isNode_root (h : Heap) (root : Ptr) : IsNode h root root :=
  ⟨0, 0, Nat.zero_le 3, rfl⟩

theorem Linked.isNode_lt {root p : Ptr} (hl : Linked h root)
    (hp : IsNode h root p) : p < h.next := by
  obtain ⟨k, key, hk, hp⟩ := hp
  exact hl.allocated k key p hk hp

/-! ## Heaps that agree on a table -/

/-- A later heap in which the nodes of a table are as they were. -/
structure Agree (h h' : Heap) (root : Ptr) : Prop where
  next : h.next ≤ h'.next
  nodes : ∀ p, IsNode h root p → h'.node p = h.node p

namespace Agree

variable {h h' : Heap} {root : Ptr} (ha : Agree h h' root)

include ha

variable {k : ℕ}

theorem nodeAt_eq (hk : k ≤ 4) (key : ℕ) :
    nodeAt h' root k key = nodeAt h root k key := by
  induction k generalizing key with
  | zero => rfl
  | succ k ih =>
    rw [nodeAt_succ, nodeAt_succ, ih (by omega)]
    cases hp : nodeAt h root k (key / 512) with
    | none => rfl
    | some p =>
      rw [Option.bind_some, Option.bind_some, lookupTable, lookupTable,
        ha.nodes p ⟨k, _, by omega, hp⟩]

theorem isNode_iff (p : Ptr) : IsNode h' root p ↔ IsNode h root p := by
  constructor
  · rintro ⟨k, key, hk, hp⟩
    rw [ha.nodeAt_eq (by omega)] at hp
    exact ⟨k, key, hk, hp⟩
  · rintro ⟨k, key, hk, hp⟩
    rw [← ha.nodeAt_eq (by omega)] at hp
    exact ⟨k, key, hk, hp⟩

theorem linked (hl : Linked h root) : Linked h' root where
  root_ne := hl.root_ne
  rootUpper := by
    rw [ha.nodes root (isNode_root h root)]
    exact hl.rootUpper
  allocated k key p hk hp := by
    rw [ha.nodeAt_eq (by omega)] at hp
    exact (hl.allocated k key p hk hp).trans_le ha.next
  level k key p hk hp := by
    rw [ha.nodeAt_eq (by omega)] at hp
    rw [ha.nodes p ⟨k, key, hk, hp⟩]
    exact hl.level k key p hk hp
  upper k key p c hk hp hc := by
    rw [ha.nodeAt_eq (by omega)] at hp hc
    rw [ha.nodes c ⟨k + 1, key, hk, hc⟩]
    exact hl.upper k key p c hk hp hc

theorem inhabited (hk : k ≤ 3) (hi : Inhabited h root k) : Inhabited h' root k := by
  intro key p hp
  rw [ha.nodeAt_eq (by omega)] at hp
  rw [ha.nodes p ⟨k, key, hk, hp⟩]
  exact hi key p hp

theorem wellFormed (hw : WellFormed h root) : WellFormed h' root where
  toLinked := ha.linked hw.toLinked
  inhabitedOne := ha.inhabited (by omega) hw.inhabitedOne
  inhabitedTwo := ha.inhabited (by omega) hw.inhabitedTwo

theorem present_eq (hk : k ≤ 4) : Present h' root k = Present h root k := by
  funext key
  rw [Present, Present, ha.nodeAt_eq hk]

theorem entryAt_eq (slot : ℕ) : entryAt h' root slot = entryAt h root slot := by
  rw [entryAt, entryAt, ha.nodeAt_eq (by omega), ha.nodeAt_eq (by omega)]

theorem position {it : RemotePageTableIter} {start : ℕ} (hpos : Position h root it start) :
    Position h' root it start := by
  obtain ⟨⟨key, hp, hstart⟩, hidx⟩ := hpos
  rw [← ha.nodeAt_eq (by omega)] at hp
  exact ⟨⟨key, hp, hstart⟩, hidx⟩

end Agree

variable {root : Ptr} {slots : List ℕ} {t : RemotePageTable}

theorem entries_unique {es es' : List PageEntry}
    (hes : List.Forall₂ (fun slot e => entryAt h root slot = some e) slots es)
    (hes' : List.Forall₂ (fun slot e => entryAt h root slot = some e) slots es') :
    es = es' := by
  induction hes generalizing es' with
  | nil =>
    cases hes'
    rfl
  | cons he _ ih =>
    cases hes' with
    | cons he' hrest => rw [Option.some.inj (he.symm.trans he'), ih hrest]

theorem Agree.yields_iff {h h' : Heap} (ha : Agree h h' root)
    (hw : WellFormed h root) {it : RemotePageTableIter} {start : ℕ}
    (hpos : Position h root it start) (es : List PageEntry) :
    Yields h' it es ↔ Yields h it es := by
  obtain ⟨slots, es₁, hslots, hyields, hes⟩ := yields_of_position hw hpos
  obtain ⟨slots', es₂, hslots', hyields', hes'⟩ :=
    yields_of_position (ha.wellFormed hw) (ha.position hpos)
  rw [ha.present_eq le_rfl] at hslots'
  simp only [ha.entryAt_eq] at hes'
  obtain rfl := hslots.unique hslots'
  obtain rfl := entries_unique hes hes'
  constructor
  · intro h₁
    rwa [h₁.unique hyields']
  · intro h₁
    rwa [h₁.unique hyields]

theorem Agree.new_eq {h h' : Heap} (ha : Agree h h' t.l4PageTable)
    (hw : WellFormed h t.l4PageTable) :
    RemotePageTableIter.new h' t = RemotePageTableIter.new h t := by
  obtain ⟨r, hr, hnew⟩ := RemoteMapping.new_eq hw
  obtain ⟨r', hr', hnew'⟩ := RemoteMapping.new_eq (ha.wellFormed hw)
  rw [ha.present_eq (by omega)] at hr'
  obtain rfl := hr.unique hr'
  have hnodes : nodeAt h' t.l4PageTable 3 = nodeAt h t.l4PageTable 3 :=
    funext (ha.nodeAt_eq (by omega))
  rw [hnew, hnew', hnodes]

/-! ## What a table shows -/

/-- A table shows the same in two heaps: the words of all addresses, and what an
iterator yields that starts before the table or at a slot. -/
structure Unchanged (h h' : Heap) (t : RemotePageTable) : Prop where
  translate : ∀ a, t.translate h' a = t.translate h a
  whole : ∀ es, NewYields h' t es ↔ NewYields h t es
  behind : ∀ p, LevelOnePage h t p → ∀ i es,
    Yields h' (RemotePageTableIter.newFromL1 p i) es ↔
      Yields h (RemotePageTableIter.newFromL1 p i) es

theorem Agree.unchanged {h h' : Heap} (ha : Agree h h' t.l4PageTable)
    (hw : WellFormed h t.l4PageTable) : Unchanged h h' t where
  translate a := by rw [translate_eq, translate_eq, ha.nodeAt_eq le_rfl]
  whole es := by
    have hsame := ha.new_eq hw
    obtain ⟨r, hr, hnew⟩ := RemoteMapping.new_eq hw
    cases r with
    | none =>
      rw [NewYields, NewYields, hsame, hnew]
      simp
    | some key =>
      obtain ⟨p, hp⟩ := hr.holds
      have hpos : Position h t.l4PageTable ⟨p, -1⟩ (512 * key) :=
        ⟨⟨key, hp, by push_cast; ring⟩, by dsimp only; omega⟩
      rw [Option.bind_some, hp] at hnew
      rw [NewYields, NewYields, hsame, hnew]
      simp [ha.yields_iff hw hpos]
  behind p hp i es := by
    obtain ⟨key, hnode⟩ := levelOnePage_iff.mp hp
    exact ha.yields_iff hw (position_newFromL1 hnode i) es

/-! ## What a call writes -/

/-- Only nodes of the table and new ones were written. -/
structure Frame (h h' : Heap) (root : Ptr) : Prop where
  next : h.next ≤ h'.next
  kept : ∀ p < h.next, ¬ IsNode h root p → h'.node p = h.node p
  nodes : ∀ p, IsNode h' root p → IsNode h root p ∨ h.next ≤ p

namespace Frame

variable {h h' h'' : Heap} {root : Ptr}

theorem refl (h : Heap) (root : Ptr) : Frame h h root where
  next := le_rfl
  kept _ _ _ := rfl
  nodes _ hp := Or.inl hp

theorem trans (h₁ : Frame h h' root) (h₂ : Frame h' h'' root) : Frame h h'' root where
  next := h₁.next.trans h₂.next
  kept p hlt hp := by
    have hp' : ¬ IsNode h' root p := by
      intro hnode
      rcases h₁.nodes p hnode with hold | hnew
      · exact hp hold
      · exact Nat.not_lt.mpr hnew hlt
    rw [h₂.kept p (hlt.trans_le h₁.next) hp', h₁.kept p hlt hp]
  nodes p hp := by
    rcases h₂.nodes p hp with hp | hnew
    · exact h₁.nodes p hp
    · exact Or.inr (h₁.next.trans hnew)

theorem setEntry (hl : Linked h root) {key : ℕ} {p : Ptr}
    (hp : nodeAt h root 3 key = some p) (i : PageTableIndex) (w : ℕ) :
    Frame h (h.setEntry p i w) root where
  next := le_rfl
  kept q _ hq := by
    refine h.setEntry_node_of_ne i w ?_
    rintro rfl
    exact hq ⟨3, key, le_rfl, hp⟩
  nodes q hq := by
    obtain ⟨k, key', hk, hq⟩ := hq
    rw [nodeAt_setEntry_levelOne hl hp i w hk] at hq
    exact Or.inl ⟨k, key', hk, hq⟩

theorem createTable (hl : Linked h root) {k key : ℕ} {p : Ptr} (hk : k < 3)
    (hp : nodeAt h root k key = some p) (i : PageTableIndex) :
    Frame h (createTable h i p).1 root := by
  cases hc : lookupTable h i p with
  | some c =>
    rw [createTable_of_present hc]
    exact refl h root
  | none =>
    constructor
    case next =>
      rw [createTable_next hc]
      exact Nat.le_succ _
    case kept =>
      intro q hlt hq
      have hne : q ≠ p := by
        rintro rfl
        exact hq ⟨k, key, by omega, hp⟩
      rw [createTable_of_absent hc, Heap.setEntry_node_of_ne _ i _ hne,
        newFromUpper_node_of_ne h p i hlt.ne]
    case nodes =>
      rintro q ⟨k', key', hk', hq⟩
      rw [nodeAt_createTable hl hk hp hc (by omega)] at hq
      split at hq
      · cases hq
        exact Or.inr le_rfl
      · exact Or.inl ⟨k', key', hk', hq⟩

theorem mapToTheL1 (hl : Linked h t.l4PageTable) (a : VirtAddr) :
    Frame h (t.mapToTheL1 h a).1 t.l4PageTable := by
  have hroot : nodeAt h t.l4PageTable 0 0 = some t.l4PageTable := rfl
  have c₃ := createTable_spec hl (by omega) hroot a.p4Index
  have c₂ := createTable_spec c₃.linked (by omega) c₃.there a.p3Index
  have f₃ := Frame.createTable hl (by omega) hroot a.p4Index
  have f₂ := Frame.createTable c₃.linked (by omega) c₃.there a.p3Index
  have f₁ := Frame.createTable c₂.linked (by omega) c₂.there a.p2Index
  exact f₃.trans (f₂.trans f₁)

theorem assign (hl : Linked h t.l4PageTable) (a : VirtAddr) (w : ℕ) :
    Frame h ((t.mapToTheL1 h a).1.setEntry (t.mapToTheL1 h a).2 a.p1Index w)
      t.l4PageTable := by
  have hc := mapToTheL1_spec hl a
  exact (mapToTheL1 hl a).trans (setEntry hc.linked hc.levelOne a.p1Index w)

theorem step {s : Heap × RemotePageTable} (hw : WellFormed s.1 s.2.l4PageTable)
    (c : SlotCall) :
    (slotMachine.step s c).1.2.l4PageTable = s.2.l4PageTable ∧
      Frame s.1 (slotMachine.step s c).1.1 s.2.l4PageTable := by
  obtain ⟨h, t⟩ := s
  cases c with
  | call c =>
    cases c with
    | map a w =>
      simp only [slotMachine, tableMachine, RemotePageTable.map]
      split
      · exact ⟨rfl, assign hw.toLinked a w⟩
      · exact ⟨rfl, mapToTheL1 hw.toLinked a⟩
    | forceMap a w =>
      simp only [slotMachine, tableMachine, RemotePageTable.forceMap]
      refine ⟨?_, assign hw.toLinked a w⟩
      split
      · rfl
      · rfl
  | overwrite a w =>
    simp only [slotMachine]
    cases hfind : t.findL1PageIdx h a with
    | none => exact ⟨rfl, refl h _⟩
    | some slot =>
      obtain ⟨p, i⟩ := slot
      exact ⟨rfl, setEntry hw.toLinked (findL1PageIdx_eq_some.mp hfind).1 i w⟩

end Frame

/-! ## Two tables in one heap -/

/-- Two well-formed tables without a common node. -/
structure Separate (h : Heap) (root root' : Ptr) : Prop where
  first : WellFormed h root
  second : WellFormed h root'
  disjoint : ∀ p, IsNode h root p → ¬ IsNode h root' p

namespace Separate

variable {h h' : Heap} {root root' : Ptr}

theorem symm (hs : Separate h root root') : Separate h root' root where
  first := hs.second
  second := hs.first
  disjoint p hp' hp := hs.disjoint p hp hp'

theorem agree (hs : Separate h root root') (hf : Frame h h' root) : Agree h h' root' where
  next := hf.next
  nodes p hp := hf.kept p (hs.second.isNode_lt hp) fun hp' => hs.disjoint p hp' hp

theorem of_frame (hs : Separate h root root') (hf : Frame h h' root)
    (hw : WellFormed h' root) : Separate h' root root' where
  first := hw
  second := (hs.agree hf).wellFormed hs.second
  disjoint p hp hp' := by
    rw [(hs.agree hf).isNode_iff] at hp'
    rcases hf.nodes p hp with hold | hnew
    · exact hs.disjoint p hold hp'
    · exact Nat.not_lt.mpr hnew (hs.second.isNode_lt hp')

end Separate

/-- A table and its copy, with the heap they lie in. -/
structure CopyState where
  heap : Heap
  original : RemotePageTable
  copy : RemotePageTable

inductive Side where
  | original
  | copy
deriving DecidableEq

/-- Calls on both tables, in any order. -/
def copyMachine : Machine CopyState (Side × SlotCall) (Option PhysAddr) where
  step
    | s, (.original, c) =>
      let r := slotMachine.step (s.heap, s.original) c
      (⟨r.1.1, r.1.2, s.copy⟩, r.2)
    | s, (.copy, c) =>
      let r := slotMachine.step (s.heap, s.copy) c
      (⟨r.1.1, s.original, r.1.2⟩, r.2)

def CopyState.Separated (s : CopyState) : Prop :=
  Separate s.heap s.original.l4PageTable s.copy.l4PageTable

/-- A call leaves the tables separate, and the other table as it was. -/
theorem CopyState.Separated.step {s : CopyState} (hs : s.Separated) (c : SlotCall) :
    ((copyMachine.step s (.original, c)).1.Separated ∧
      Agree s.heap (copyMachine.step s (.original, c)).1.heap s.copy.l4PageTable) ∧
    ((copyMachine.step s (.copy, c)).1.Separated ∧
      Agree s.heap (copyMachine.step s (.copy, c)).1.heap s.original.l4PageTable) := by
  constructor
  · have hw := slotMachine_wellFormed (s := (s.heap, s.original)) hs.first c
    obtain ⟨hroot, hf⟩ := Frame.step (s := (s.heap, s.original)) hs.first c
    rw [hroot] at hw
    refine ⟨?_, hs.agree hf⟩
    rw [CopyState.Separated, copyMachine]
    dsimp only
    rw [hroot]
    exact hs.of_frame hf hw
  · have hw := slotMachine_wellFormed (s := (s.heap, s.copy)) hs.second c
    obtain ⟨hroot, hf⟩ := Frame.step (s := (s.heap, s.copy)) hs.second c
    rw [hroot] at hw
    refine ⟨?_, hs.symm.agree hf⟩
    rw [CopyState.Separated, copyMachine]
    dsimp only
    rw [hroot]
    exact (hs.symm.of_frame hf hw).symm

theorem CopyState.Separated.run {s : CopyState} (hs : s.Separated)
    (calls : List (Side × SlotCall)) : (copyMachine.run s calls).Separated := by
  refine Machine.invariant CopyState.Separated ?_ hs
    (Machine.always_of_forall (fun _ _ => trivial) s calls)
  rintro s ⟨side, c⟩ hs (_ : True)
  cases side with
  | original => exact (hs.step c).1.1
  | copy => exact (hs.step c).2.1

/-! ## The copy -/

section Copy

variable {h : Heap} {t : RemotePageTable}

theorem next_le_of_isNode_copy (hl : Linked h t.l4PageTable) {p : Ptr}
    (hp : IsNode (t.copy h).1 (t.copy h).2.l4PageTable p) : h.next ≤ p := by
  obtain ⟨k, key, hk, hp⟩ := hp
  rcases (copied_copy hl).copies.same_address hk key with ⟨-, hnone⟩ | ⟨r, r', -, hr', hc⟩
  · rw [hnone] at hp
    cases hp
  · rw [hr'] at hp
    cases hp
    exact hc.bounds.1

theorem agree_copy (hl : Linked h t.l4PageTable) : Agree h (t.copy h).1 t.l4PageTable where
  next := (copied_copy hl).next
  nodes p hp := (copied_copy hl).kept p (hl.isNode_lt hp)

theorem separate_copy (hw : WellFormed h t.l4PageTable) :
    Separate (t.copy h).1 t.l4PageTable (t.copy h).2.l4PageTable where
  first := (agree_copy hw.toLinked).wellFormed hw
  second := (copy_spec hw).1
  disjoint p hp hp' := by
    rw [(agree_copy hw.toLinked).isNode_iff] at hp
    exact Nat.not_lt.mpr (next_le_of_isNode_copy hw.toLinked hp') (hw.isNode_lt hp)

theorem exists_original_page (hl : Linked h t.l4PageTable) {key : ℕ} {q : Ptr}
    (hq : nodeAt (t.copy h).1 (t.copy h).2.l4PageTable 3 key = some q) :
    ∃ p, nodeAt h t.l4PageTable 3 key = some p := by
  rcases (copied_copy hl).copies.same_address le_rfl key with ⟨-, hnone⟩ | ⟨p, -, hp, -, -⟩
  · rw [hnone] at hq
    cases hq
  · exact ⟨p, hp⟩

theorem map_addr_eq {es : List PageEntry}
    (hes : List.Forall₂ (fun slot e => entryAt h root slot = some e) slots es) :
    es.map (fun e => some e.addr) = slots.map (nodeAt h root 4) := by
  induction hes with
  | nil => rfl
  | cons he _ ih => rw [List.map_cons, List.map_cons, ih, (entryAt_eq_some_iff.mp he).2.1]

theorem same_words {h' : Heap} {root root' : Ptr} {es es' : List PageEntry}
    (hwords : ∀ key, nodeAt h' root' 4 key = nodeAt h root 4 key)
    (hes : List.Forall₂ (fun slot e => entryAt h root slot = some e) slots es)
    (hes' : List.Forall₂ (fun slot e => entryAt h' root' slot = some e) slots es') :
    es'.map PageEntry.addr = es.map PageEntry.addr := by
  have hsome : (es'.map PageEntry.addr).map some = (es.map PageEntry.addr).map some := by
    rw [List.map_map, List.map_map]
    have hslots : slots.map (nodeAt h' root' 4) = slots.map (nodeAt h root 4) :=
      List.map_congr_left fun slot _ => hwords slot
    exact (map_addr_eq hes').trans (hslots.trans (map_addr_eq hes).symm)
  exact List.map_injective_iff.mpr (Option.some_injective _) hsome

theorem isNode_of_entries {es : List PageEntry}
    (hes : List.Forall₂ (fun slot e => entryAt h root slot = some e) slots es) :
    ∀ e ∈ es, IsNode h root e.page := by
  induction hes with
  | nil => simp
  | @cons slot e slots es he _ ih =>
    rw [List.forall_mem_cons]
    exact ⟨⟨3, _, le_rfl, (entryAt_eq_some_iff.mp he).1⟩, ih⟩

end Copy

/-- Two tables translate alike, and their iterators yield the same words, over
nodes of the second table, when they start before the tables or at the slots of
one address. -/
structure SameWords (h : Heap) (t : RemotePageTable) (h' : Heap) (t' : RemotePageTable) :
    Prop where
  translate : ∀ a, t'.translate h' a = t.translate h a
  whole : ∃ es es', NewYields h t es ∧ NewYields h' t' es' ∧
    es'.map PageEntry.addr = es.map PageEntry.addr ∧
    ∀ e ∈ es', IsNode h' t'.l4PageTable e.page
  behind : ∀ a q i, t'.findL1PageIdx h' a = some (q, i) →
    ∃ p es es', t.findL1PageIdx h a = some (p, i) ∧
      Yields h (RemotePageTableIter.newFromL1 p i) es ∧
      Yields h' (RemotePageTableIter.newFromL1 q i) es' ∧
      es'.map PageEntry.addr = es.map PageEntry.addr ∧
      ∀ e ∈ es', IsNode h' t'.l4PageTable e.page

theorem sameWords_copy (hw : WellFormed h t.l4PageTable) :
    SameWords h t (t.copy h).1 (t.copy h).2 := by
  obtain ⟨hw', hwords⟩ := copy_spec hw
  have hpresent : Present (t.copy h).1 (t.copy h).2.l4PageTable 4 =
      Present h t.l4PageTable 4 := by
    funext key
    rw [Present, Present, hwords]
  constructor
  case translate => exact translate_copy hw
  case whole =>
    obtain ⟨slots, es, hslots, hnew, hes⟩ := exists_newYields hw
    obtain ⟨slots', es', hslots', hnew', hes'⟩ := exists_newYields hw'
    rw [hpresent] at hslots'
    obtain rfl := hslots.unique hslots'
    exact ⟨es, es', hnew, hnew', same_words hwords hes hes', isNode_of_entries hes'⟩
  case behind =>
    intro a q i hfind
    obtain ⟨hq, rfl⟩ := findL1PageIdx_eq_some.mp hfind
    obtain ⟨p, hp⟩ := exists_original_page hw.toLinked hq
    obtain ⟨slots, es, hslots, hyields, hes⟩ :=
      yields_of_position hw (position_newFromL1 hp (.newTruncate a.pageKey))
    obtain ⟨slots', es', hslots', hyields', hes'⟩ :=
      yields_of_position hw' (position_newFromL1 hq (.newTruncate a.pageKey))
    rw [hpresent] at hslots'
    obtain rfl := hslots.unique hslots'
    exact ⟨p, es, es', findL1PageIdx_eq_some.mpr ⟨hp, rfl⟩, hyields, hyields',
      same_words hwords hes hes', isNode_of_entries hes'⟩

/-- The node above a node is its parent in the table, and the index there is
where the node hangs. -/
theorem Linked.parent {root p : Ptr} (hl : Linked h root) (hp : IsNode h root p) :
    (p = root ∧ (h.node p).upperLevel = 0) ∨
      (IsNode h root (h.node p).upperLevel ∧
        (h.node (h.node p).upperLevel).entries (h.node p).upperLevelIndex = p) := by
  obtain ⟨k, key, hk, hp⟩ := hp
  cases k with
  | zero =>
    simp only [nodeAt, Option.ite_none_right_eq_some, Option.some.injEq] at hp
    obtain ⟨-, rfl⟩ := hp
    exact Or.inl ⟨rfl, hl.rootUpper⟩
  | succ k =>
    obtain ⟨q, hq, hentry, -⟩ := nodeAt_succ_eq_some.mp hp
    obtain ⟨hup, hidx⟩ := hl.upper k key q p (by omega) hq hp
    rw [hup, hidx]
    exact Or.inr ⟨⟨k, _, by omega, hq⟩, hentry⟩

/-- A copy of a well-formed table is a well-formed table of its own.  It has the
length, the translations and the iterations of the original and shares no node
with it, back pointers included; its iterations depend on its own nodes only;
and after any calls on the two tables, a further call on one of them leaves what
the other shows as it was. -/
theorem copy_is_independent (h : Heap) (t : RemotePageTable)
    (hw : WellFormed h t.l4PageTable) :
    let h' := (t.copy h).1
    let c := (t.copy h).2
    WellFormed h' c.l4PageTable ∧ c.len = t.len ∧
    (∀ p, IsNode h' t.l4PageTable p → ¬ IsNode h' c.l4PageTable p) ∧
    (∀ p, IsNode h' c.l4PageTable p →
      (p = c.l4PageTable ∧ (h'.node p).upperLevel = 0) ∨
      (IsNode h' c.l4PageTable (h'.node p).upperLevel ∧
        (h'.node (h'.node p).upperLevel).entries (h'.node p).upperLevelIndex = p)) ∧
    SameWords h t h' c ∧ Unchanged h h' t ∧
    (∀ h'', Agree h' h'' c.l4PageTable → Unchanged h' h'' c) ∧
    ∀ calls c',
      let s := copyMachine.run ⟨h', t, c⟩ calls
      Unchanged s.heap (copyMachine.step s (.original, c')).1.heap s.copy ∧
      Unchanged s.heap (copyMachine.step s (.copy, c')).1.heap s.original := by
  intro h' c
  have hsep : Separate h' t.l4PageTable c.l4PageTable := separate_copy hw
  have hlen : c.len = t.len := rfl
  have hsame : SameWords h t h' c := sameWords_copy hw
  have hagree : Agree h h' t.l4PageTable := agree_copy hw.toLinked
  clear_value h' c
  refine ⟨hsep.second, hlen, hsep.disjoint, fun p hp => hsep.second.parent hp, hsame,
    hagree.unchanged hw, fun h'' ha => ha.unchanged hsep.second, ?_⟩
  intro calls c'
  have hs : CopyState.Separated ⟨h', t, c⟩ := hsep
  have hrun := hs.run calls
  obtain ⟨⟨-, hcopy⟩, -, horiginal⟩ := hrun.step c'
  exact ⟨hcopy.unchanged hrun.second, horiginal.unchanged hrun.first⟩

/-- A table of one page. -/
theorem copy_is_independent_one_page :
    let a : VirtAddr := ⟨4096, by decide⟩
    let calls : List SlotCall := [.call (.map a 8192)]
    let s := slotMachine.run (RemotePageTable.new Heap.empty) calls
    s.2.translate s.1 a = some 8192 ∧
      (s.2.copy s.1).2.translate (s.2.copy s.1).1 a = some 8192 := by
  intro a calls s
  have hword : s.2.translate s.1 a = some 8192 := by decide +kernel
  have hw := wellFormed_of_run Heap.empty calls s rfl
  clear_value s
  obtain ⟨-, -, -, -, hsame, -⟩ := copy_is_independent s.1 s.2 hw
  exact ⟨hword, (hsame.translate a).trans hword⟩

end Mitosis.RemoteMapping
