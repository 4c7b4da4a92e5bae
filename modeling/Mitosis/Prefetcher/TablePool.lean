import Mitosis.Prefetcher.TableNodes

/-!
# Page tables that share a heap

A machine has many page tables on one heap: those of its children, and copies of them in
the cache.  They are created, changed, copied and dropped in any order, and nothing but raw
pointers says which nodes belong to which table.  To their users they are separate maps
from pages to words, and every node has one owner until it is given back.
-/

namespace Mitosis.Prefetcher

open Mitosis.RemoteMapping
open Mitosis.Support

/-! ## The machine -/

/-- A call on the tables of a machine, which are known by numbers. -/
inductive PoolCall where
  | new (id : ℕ)
  | change (id : ℕ) (c : SlotCall)
  | translate (id : ℕ) (addr : VirtAddr)
  | copy (id fresh : ℕ)
  | drop (id : ℕ)
deriving DecidableEq

inductive PoolOutput where
  | answer (word : Option PhysAddr)
  | done
  | panicked
  | refused
deriving DecidableEq

/-- The heap, the tables on it, and the nodes that were given back. -/
structure TablePool where
  heap : Heap
  tables : ℕ → Option RemotePageTable
  freed : List Ptr

/-- Only slots that hold a word are overwritten: with the mark or the page of a prefetch,
or with zero when the page is handed out. -/
def admitted (h : Heap) (t : RemotePageTable) : SlotCall → Bool
  | .call _ => true
  | .overwrite a _ => (t.translate h a).isSome

namespace TablePool

def start : TablePool := ⟨Heap.empty, fun _ => none, []⟩

def add (s : TablePool) (id : ℕ) (r : Heap × RemotePageTable) : TablePool :=
  { s with heap := r.1, tables := Function.update s.tables id (some r.2) }

def step (s : TablePool) : PoolCall → TablePool × PoolOutput
  | .new id =>
    if s.tables id = none then (s.add id (RemotePageTable.new s.heap), .done)
    else (s, .refused)
  | .change id c =>
    match s.tables id with
    | none => (s, .refused)
    | some t =>
      if admitted s.heap t c then
        let r := slotMachine.step (s.heap, t) c
        (s.add id r.1, .answer r.2)
      else (s, .answer none)
  | .translate id addr =>
    match s.tables id with
    | none => (s, .refused)
    | some t => (s, .answer (t.translate s.heap addr))
  | .copy id fresh =>
    match s.tables id, s.tables fresh with
    | some t, none => (s.add fresh (t.copy s.heap), .done)
    | _, _ => (s, .refused)
  | .drop id =>
    match s.tables id with
    | none => (s, .refused)
    | some t =>
      match freeTable s.heap t with
      | .error _ => (s, .panicked)
      | .ok nodes =>
        (⟨s.heap, Function.update s.tables id none, s.freed ++ nodes⟩, .done)

end TablePool

def poolMachine : Machine TablePool PoolCall PoolOutput := ⟨TablePool.step⟩

/-! ## Separate maps -/

/-- What a table is to its users: the words of the pages. -/
abbrev Words := ℕ → Option PhysAddr

/-- The word zero stands for no word. -/
def storedWord (w : PhysAddr) : Option PhysAddr := if w = 0 then none else some w

def Words.step (f : Words) : SlotCall → Words × Option PhysAddr
  | .call (.map a w) =>
    match f a.pageKey with
    | some w₀ => (f, some w₀)
    | none => (Function.update f a.pageKey (storedWord w), none)
  | .call (.forceMap a w) => (Function.update f a.pageKey (storedWord w), none)
  | .overwrite a w =>
    if (f a.pageKey).isSome then (Function.update f a.pageKey (storedWord w), none)
    else (f, none)

open Classical in
/-- The calls on maps that have nothing to do with each other.  A map with a marked page
cannot be dropped. -/
noncomputable def wordsMachine : Machine (ℕ → Option Words) PoolCall PoolOutput where
  step m
    | .new id =>
      if m id = none then (Function.update m id (some fun _ => none), .done)
      else (m, .refused)
    | .change id c =>
      match m id with
      | none => (m, .refused)
      | some f => (Function.update m id (some (f.step c).1), .answer (f.step c).2)
    | .translate id addr =>
      match m id with
      | none => (m, .refused)
      | some f => (m, .answer (f addr.pageKey))
    | .copy id fresh =>
      match m id, m fresh with
      | some f, none => (Function.update m fresh (some f), .done)
      | _, _ => (m, .refused)
    | .drop id =>
      match m id with
      | none => (m, .refused)
      | some f =>
        if ∃ k, f k = some kMagicInPrefetch then (m, .panicked)
        else (Function.update m id none, .done)

def tableWords (h : Heap) (t : RemotePageTable) : Words := nodeAt h t.l4PageTable 4

def TablePool.words (s : TablePool) (id : ℕ) : Option Words :=
  (s.tables id).map (tableWords s.heap)

section Changes

variable {h : Heap} {t : RemotePageTable}

theorem tableWords_of_assigned {h' : Heap} {a : VirtAddr} {w : PhysAddr}
    {t' : RemotePageTable} (hroot : t'.l4PageTable = t.l4PageTable)
    (ha : Assigned h h' t.l4PageTable a.pageKey w) :
    tableWords h' t' = Function.update (tableWords h t) a.pageKey (storedWord w) := by
  funext key
  rw [tableWords, hroot, ha.words, Function.update_apply]
  rfl

theorem tableWords_step (hw : WellFormed h t.l4PageTable) {c : SlotCall}
    (hc : admitted h t c = true) :
    let r := slotMachine.step (h, t) c
    tableWords r.1.1 r.1.2 = ((tableWords h t).step c).1 ∧ r.2 = ((tableWords h t).step c).2 := by
  cases c with
  | call c =>
    cases c with
    | map a w =>
      have htr : t.translate h a = tableWords h t a.pageKey := translate_eq h t a
      simp only [slotMachine, tableMachine, Words.step]
      cases hlook : tableWords h t a.pageKey with
      | some w₀ =>
        rw [map_of_present hw (htr.trans hlook)]
        exact ⟨rfl, rfl⟩
      | none =>
        obtain ⟨hout, hroot, -, ha⟩ := map_of_absent hw (htr.trans hlook) w
        exact ⟨tableWords_of_assigned hroot ha, hout⟩
    | forceMap a w =>
      obtain ⟨hroot, -, ha⟩ := forceMap_spec (a := a) hw w
      exact ⟨tableWords_of_assigned hroot ha, rfl⟩
  | overwrite a w =>
    -- the slot has a word, so its level-one node is there
    obtain ⟨w₀, hw₀⟩ : ∃ w₀, tableWords h t a.pageKey = some w₀ := by
      rw [← Option.isSome_iff_exists, tableWords, ← translate_eq]
      exact hc
    obtain ⟨p, hp, -⟩ := nodeAt_succ_eq_some.mp hw₀
    simp only [slotMachine, findL1PageIdx_eq_some.mpr ⟨hp, rfl⟩, Words.step, hw₀,
      Option.isSome_some, if_true]
    refine ⟨?_, trivial⟩
    funext key
    have hkey : 512 * (a.pageKey / 512) + (PageTableIndex.newTruncate a.pageKey).val =
        a.pageKey := (child_eq_iff.mpr ⟨rfl, rfl⟩).symm
    rw [tableWords, nodeAt_four_setEntry hw.toLinked hp, hkey, Function.update_apply]
    rfl

theorem words_step_of_not_admitted {c : SlotCall} (hc : admitted h t c = false) :
    (tableWords h t).step c = (tableWords h t, none) := by
  cases c with
  | call c => cases hc
  | overwrite a w =>
    have hnone : (tableWords h t a.pageKey).isSome = false := by
      rw [tableWords, ← translate_eq]
      exact hc
    rw [Words.step, hnone]
    rfl

end Changes

/-! ## Owners -/

/-- Every table is well formed, and every node that was allocated belongs to one table or
was given back, once. -/
structure TablePool.Owned (s : TablePool) : Prop where
  wellFormed : ∀ id t, s.tables id = some t → WellFormed s.heap t.l4PageTable
  apart : ∀ id id' t t' p, s.tables id = some t → s.tables id' = some t' →
    IsNode s.heap t.l4PageTable p → IsNode s.heap t'.l4PageTable p → id = id'
  freedOnce : s.freed.Nodup
  freedBefore : ∀ p ∈ s.freed, p < s.heap.next
  notFreed : ∀ id t p, s.tables id = some t → IsNode s.heap t.l4PageTable p → p ∉ s.freed
  held : ∀ p, 0 < p → p < s.heap.next →
    p ∈ s.freed ∨ ∃ id t, s.tables id = some t ∧ IsNode s.heap t.l4PageTable p

/-- The heap changes, and one table with it. -/
structure Changes (s : TablePool) (id : ℕ) (r : Heap × RemotePageTable) : Prop where
  next : s.heap.next ≤ r.1.next
  wellFormed : WellFormed r.1 r.2.l4PageTable
  others : ∀ id' t', id' ≠ id → s.tables id' = some t' → Agree s.heap r.1 t'.l4PageTable
  nodes : ∀ p, IsNode r.1 r.2.l4PageTable p →
    s.heap.next ≤ p ∨ ∃ t, s.tables id = some t ∧ IsNode s.heap t.l4PageTable p
  stays : ∀ t p, s.tables id = some t → IsNode s.heap t.l4PageTable p →
    IsNode r.1 r.2.l4PageTable p
  fresh : ∀ p, s.heap.next ≤ p → p < r.1.next → IsNode r.1 r.2.l4PageTable p

namespace TablePool

variable {s : TablePool} {id : ℕ} {r : Heap × RemotePageTable} {t : RemotePageTable}

theorem add_tables_self (s : TablePool) (id : ℕ) (r : Heap × RemotePageTable) :
    (s.add id r).tables id = some r.2 := Function.update_self _ _ _

theorem add_tables_of_ne (s : TablePool) {id id' : ℕ} (r : Heap × RemotePageTable)
    (h : id' ≠ id) : (s.add id r).tables id' = s.tables id' := Function.update_of_ne h _ _

theorem words_add (hc : Changes s id r) :
    (s.add id r).words = Function.update s.words id (some (tableWords r.1 r.2)) := by
  funext id'
  by_cases hid : id' = id
  · subst hid
    rw [words, add_tables_self, Function.update_self]
    rfl
  · rw [words, add_tables_of_ne s r hid, Function.update_of_ne hid, words]
    cases ht : s.tables id' with
    | none => rfl
    | some t' =>
      refine congrArg some (funext fun key => ?_)
      exact (hc.others id' t' hid ht).nodeAt_eq le_rfl key

theorem Owned.add (hs : s.Owned) (hc : Changes s id r) : (s.add id r).Owned := by
  -- the tables that are not changed, in the old heap and in the new one
  have hother : ∀ id' t', id' ≠ id → (s.add id r).tables id' = some t' →
      s.tables id' = some t' ∧ ∀ p, IsNode r.1 t'.l4PageTable p ↔ IsNode s.heap t'.l4PageTable p := by
    intro id' t' hid ht
    rw [add_tables_of_ne s r hid] at ht
    exact ⟨ht, (hc.others id' t' hid ht).isNode_iff⟩
  have hself : ∀ t', (s.add id r).tables id = some t' → t' = r.2 := by
    intro t' ht
    rw [add_tables_self] at ht
    exact (Option.some.inj ht).symm
  have hnot : ∀ id' t' p, id' ≠ id → (s.add id r).tables id' = some t' →
      IsNode r.1 t'.l4PageTable p → ¬ IsNode r.1 r.2.l4PageTable p := by
    intro id' t' p hid ht hp hp'
    obtain ⟨ht, hiff⟩ := hother id' t' hid ht
    rw [hiff] at hp
    rcases hc.nodes p hp' with hnew | ⟨t, htid, hold⟩
    · exact Nat.not_lt.mpr hnew ((hs.wellFormed id' t' ht).isNode_lt hp)
    · exact hid (hs.apart id' id t' t p ht htid hp hold)
  constructor
  case wellFormed =>
    intro id' t' ht
    by_cases hid : id' = id
    · subst hid
      rw [hself t' ht]
      exact hc.wellFormed
    · obtain ⟨hold, -⟩ := hother id' t' hid ht
      exact (hc.others id' t' hid hold).wellFormed (hs.wellFormed id' t' hold)
  case apart =>
    intro id₁ id₂ t₁ t₂ p h₁ h₂ hp₁ hp₂
    by_cases hid₁ : id₁ = id
    · by_cases hid₂ : id₂ = id
      · rw [hid₁, hid₂]
      · subst hid₁
        rw [hself t₁ h₁] at hp₁
        exact absurd hp₁ (hnot id₂ t₂ p hid₂ h₂ hp₂)
    · by_cases hid₂ : id₂ = id
      · subst hid₂
        rw [hself t₂ h₂] at hp₂
        exact absurd hp₂ (hnot id₁ t₁ p hid₁ h₁ hp₁)
      · obtain ⟨hold₁, hiff₁⟩ := hother id₁ t₁ hid₁ h₁
        obtain ⟨hold₂, hiff₂⟩ := hother id₂ t₂ hid₂ h₂
        exact hs.apart id₁ id₂ t₁ t₂ p hold₁ hold₂ ((hiff₁ p).mp hp₁) ((hiff₂ p).mp hp₂)
  case freedOnce => exact hs.freedOnce
  case freedBefore => exact fun p hp => (hs.freedBefore p hp).trans_le hc.next
  case notFreed =>
    intro id' t' p ht hp hfreed
    by_cases hid : id' = id
    · subst hid
      rw [hself t' ht] at hp
      rcases hc.nodes p hp with hnew | ⟨t, htid, hold⟩
      · exact Nat.not_lt.mpr hnew (hs.freedBefore p hfreed)
      · exact hs.notFreed _ t p htid hold hfreed
    · obtain ⟨hold, hiff⟩ := hother id' t' hid ht
      exact hs.notFreed id' t' p hold ((hiff p).mp hp) hfreed
  case held =>
    intro p hpos hlt
    have hadded := add_tables_self s id r
    rcases Nat.lt_or_ge p s.heap.next with hold | hnew
    · rcases hs.held p hpos hold with hfreed | ⟨id', t', ht, hp⟩
      · exact Or.inl hfreed
      · by_cases hid : id' = id
        · subst hid
          exact Or.inr ⟨_, r.2, hadded, hc.stays t' p ht hp⟩
        · have hkept := (add_tables_of_ne s r hid).trans ht
          exact Or.inr ⟨id', t', hkept, ((hother id' t' hid hkept).2 p).mpr hp⟩
    · exact Or.inr ⟨id, r.2, hadded, hc.fresh p hnew hlt⟩

theorem Owned.remove (hs : s.Owned) (ht : s.tables id = some t) :
    Owned ⟨s.heap, Function.update s.tables id none,
      s.freed ++ treeNodes s.heap 3 t.l4PageTable⟩ := by
  have hw := hs.wellFormed id t ht
  have hother : ∀ id' t', Function.update s.tables id none id' = some t' →
      id' ≠ id ∧ s.tables id' = some t' := by
    intro id' t' hid'
    have hne : id' ≠ id := by
      rintro rfl
      rw [Function.update_self] at hid'
      cases hid'
    rw [Function.update_of_ne hne] at hid'
    exact ⟨hne, hid'⟩
  constructor
  case wellFormed =>
    intro id' t' ht'
    exact hs.wellFormed id' t' (hother id' t' ht').2
  case apart =>
    intro id₁ id₂ t₁ t₂ p h₁ h₂
    exact hs.apart id₁ id₂ t₁ t₂ p (hother id₁ t₁ h₁).2 (hother id₂ t₂ h₂).2
  case freedOnce =>
    refine List.Nodup.append hs.freedOnce
      (nodup_treeNodes hw.toLinked le_rfl (rfl : nodeAt _ _ 0 0 = some _)) ?_
    intro p hp hnode
    exact hs.notFreed id t p ht ((mem_treeNodes_root _ _ _).mp hnode) hp
  case freedBefore =>
    intro p hp
    rcases List.mem_append.mp hp with hold | hnode
    · exact hs.freedBefore p hold
    · exact hw.isNode_lt ((mem_treeNodes_root _ _ _).mp hnode)
  case notFreed =>
    intro id' t' p ht' hp hfreed
    obtain ⟨hne, ht'⟩ := hother id' t' ht'
    rcases List.mem_append.mp hfreed with hold | hnode
    · exact hs.notFreed id' t' p ht' hp hold
    · exact hne (hs.apart id' id t' t p ht' ht hp ((mem_treeNodes_root _ _ _).mp hnode))
  case held =>
    intro p hpos hlt
    rcases hs.held p hpos hlt with hold | ⟨id', t', ht', hp⟩
    · exact Or.inl (List.mem_append_left _ hold)
    · by_cases hid : id' = id
      · subst hid
        obtain rfl : t' = t := Option.some.inj (ht'.symm.trans ht)
        exact Or.inl (List.mem_append_right _ ((mem_treeNodes_root _ _ _).mpr hp))
      · exact Or.inr ⟨id', t', (Function.update_of_ne hid _ _).trans ht', hp⟩

/-! ## Every call -/

theorem changes_new (hs : s.Owned) (hid : s.tables id = none) :
    Changes s id (RemotePageTable.new s.heap) := by
  have hnode : ∀ p, IsNode (RemotePageTable.new s.heap).1
      (RemotePageTable.new s.heap).2.l4PageTable p → p = s.heap.next := by
    rintro p ⟨k, key, -, hp⟩
    cases k with
    | zero =>
      simp only [nodeAt, Option.ite_none_right_eq_some, Option.some.injEq] at hp
      exact hp.2.symm
    | succ k =>
      rw [nodeAt_new] at hp
      cases hp
  constructor
  case next => exact Nat.le_succ _
  case wellFormed => exact wellFormed_new s.heap
  case others =>
    intro id' t' _ ht
    refine ⟨Nat.le_succ _, fun p hp => Function.update_of_ne ?_ _ _⟩
    exact ((hs.wellFormed id' t' ht).isNode_lt hp).ne
  case nodes => exact fun p hp => Or.inl (hnode p hp).ge
  case stays =>
    intro t p ht
    rw [hid] at ht
    cases ht
  case fresh =>
    intro p hle hlt
    obtain rfl : p = s.heap.next := Nat.le_antisymm (Nat.le_of_lt_succ hlt) hle
    exact isNode_root _ _

theorem changes_step (hs : s.Owned) (ht : s.tables id = some t) (c : SlotCall) :
    Changes s id (slotMachine.step (s.heap, t) c).1 := by
  have hw := hs.wellFormed id t ht
  have hw' := slotMachine_wellFormed (s := (s.heap, t)) hw c
  obtain ⟨hroot, hframe⟩ := Frame.step (s := (s.heap, t)) hw c
  have hgrows := Grows.step (s := (s.heap, t)) hw c
  constructor
  case next => exact hframe.next
  case wellFormed => exact hw'
  case others =>
    intro id' t' hne ht'
    refine Separate.agree ⟨hw, hs.wellFormed id' t' ht', fun p hp hp' => hne ?_⟩ hframe
    exact hs.apart id' id t' t p ht' ht hp' hp
  case nodes =>
    intro p hp
    rw [hroot] at hp
    rcases hframe.nodes p hp with hold | hnew
    · exact Or.inr ⟨t, ht, hold⟩
    · exact Or.inl hnew
  case stays =>
    intro t' p ht' hp
    obtain rfl : t' = t := Option.some.inj (ht'.symm.trans ht)
    rw [hroot]
    exact hgrows.stays p hp
  case fresh =>
    intro p hle hlt
    rw [hroot]
    exact hgrows.fresh p hle hlt

theorem changes_copy (hs : s.Owned) (ht : s.tables id = some t) {fresh : ℕ}
    (hfresh : s.tables fresh = none) : Changes s fresh (t.copy s.heap) := by
  have hw := hs.wellFormed id t ht
  have hc := copied_copy hw.toLinked
  constructor
  case next => exact hc.next
  case wellFormed => exact (copy_spec hw).1
  case others =>
    intro id' t' _ ht'
    exact ⟨hc.next, fun p hp => hc.kept p ((hs.wellFormed id' t' ht').isNode_lt hp)⟩
  case nodes => exact fun p hp => Or.inl (next_le_of_isNode_copy hw.toLinked hp)
  case stays =>
    intro t' p ht'
    rw [hfresh] at ht'
    cases ht'
  case fresh => exact fun p hle hlt => isNode_copy hw.toLinked hle hlt

theorem words_eq_none_iff : s.words id = none ↔ s.tables id = none := Option.map_eq_none_iff

theorem words_of_some (ht : s.tables id = some t) : s.words id = some (tableWords s.heap t) := by
  rw [words, ht]
  rfl

/-- Every call keeps the owners, and does to the words what it does to separate maps. -/
theorem Owned.step (hs : s.Owned) (c : PoolCall) :
    (s.step c).1.Owned ∧ (s.step c).1.words = (wordsMachine.step s.words c).1 ∧
      (s.step c).2 = (wordsMachine.step s.words c).2 := by
  cases c with
  | new id =>
    simp only [TablePool.step, wordsMachine, words_eq_none_iff]
    by_cases hid : s.tables id = none
    · rw [if_pos hid, if_pos hid]
      have hc := changes_new hs hid
      refine ⟨hs.add hc, ?_, rfl⟩
      rw [words_add hc]
      refine congrArg (fun f => Function.update s.words id (some f)) (funext fun key => ?_)
      exact nodeAt_new s.heap 3 key
    · rw [if_neg hid, if_neg hid]
      exact ⟨hs, rfl, rfl⟩
  | change id c =>
    simp only [TablePool.step, wordsMachine]
    cases ht : s.tables id with
    | none =>
      rw [words_eq_none_iff.mpr ht]
      exact ⟨hs, rfl, rfl⟩
    | some t =>
      rw [words_of_some ht]
      dsimp only
      by_cases hadm : admitted s.heap t c = true
      · have hc := changes_step hs ht c
        obtain ⟨hwords, hout⟩ := tableWords_step (hs.wellFormed id t ht) hadm
        rw [if_pos hadm]
        refine ⟨hs.add hc, ?_, ?_⟩
        · rw [words_add hc, hwords]
        · rw [hout]
      · rw [if_neg hadm, words_step_of_not_admitted (Bool.eq_false_iff.mpr hadm)]
        refine ⟨hs, ?_, rfl⟩
        rw [Function.update_eq_self_iff.mpr]
        exact (words_of_some ht).symm
  | translate id addr =>
    simp only [TablePool.step, wordsMachine]
    cases ht : s.tables id with
    | none =>
      rw [words_eq_none_iff.mpr ht]
      exact ⟨hs, rfl, rfl⟩
    | some t =>
      rw [words_of_some ht]
      exact ⟨hs, rfl, congrArg PoolOutput.answer (translate_eq s.heap t addr)⟩
  | copy id fresh =>
    simp only [TablePool.step, wordsMachine]
    cases ht : s.tables id with
    | none =>
      rw [words_eq_none_iff.mpr ht]
      exact ⟨hs, rfl, rfl⟩
    | some t =>
      rw [words_of_some ht]
      cases hfresh : s.tables fresh with
      | none =>
        rw [words_eq_none_iff.mpr hfresh]
        have hc := changes_copy hs ht hfresh
        refine ⟨hs.add hc, ?_, rfl⟩
        rw [words_add hc]
        refine congrArg (fun f => Function.update s.words fresh (some f))
          (funext fun key => ?_)
        exact (copy_spec (hs.wellFormed id t ht)).2 key
      | some t' =>
        rw [words_of_some hfresh]
        exact ⟨hs, rfl, rfl⟩
  | drop id =>
    simp only [TablePool.step, wordsMachine]
    cases ht : s.tables id with
    | none =>
      rw [words_eq_none_iff.mpr ht]
      exact ⟨hs, rfl, rfl⟩
    | some t =>
      rw [words_of_some ht]
      have hl := (hs.wellFormed id t ht).toLinked
      by_cases hmark : ∃ k, tableWords s.heap t k = some kMagicInPrefetch
      · obtain ⟨e, he⟩ := freeTable_error hl hmark
        dsimp only
        rw [he, if_pos hmark]
        exact ⟨hs, rfl, rfl⟩
      · dsimp only
        rw [freeTable_eq hl hmark, if_neg hmark]
        refine ⟨hs.remove ht, ?_, rfl⟩
        funext id'
        by_cases hid : id' = id
        · subst hid
          simp [words]
        · simp [words, hid]

theorem owned_start : start.Owned where
  wellFormed _ _ ht := nomatch ht
  apart _ _ _ _ _ ht := nomatch ht
  freedOnce := List.nodup_nil
  freedBefore := nofun
  notFreed _ _ _ ht := nomatch ht
  held _ hpos hlt := absurd hlt (Nat.not_lt.mpr hpos)

theorem owned_run (calls : List PoolCall) : (poolMachine.run start calls).Owned :=
  Machine.invariant Owned (fun _ c hs (_ : True) => (hs.step c).1) owned_start
    (Machine.always_of_forall (fun _ _ => trivial) _ _)

end TablePool

/-- Any number of page tables on one heap, created, changed, read, copied and dropped in
any order, answer as maps that have nothing to do with each other; a drop panics if and
only if a page of the table is marked as being read ahead. -/
theorem pool_refines_words (calls : List PoolCall) :
    poolMachine.outputs TablePool.start calls = wordsMachine.outputs (fun _ => none) calls ∧
      (poolMachine.run TablePool.start calls).words = wordsMachine.run (fun _ => none) calls := by
  have hstep : ∀ (s : TablePool) (m : ℕ → Option Words) (c : PoolCall),
      s.Owned ∧ s.words = m → True →
      ((poolMachine.step s c).1.Owned ∧
        (poolMachine.step s c).1.words = (wordsMachine.step m c).1) ∧
      (poolMachine.step s c).2 = (wordsMachine.step m c).2 := by
    rintro s m c ⟨hs, rfl⟩ -
    obtain ⟨hs', hwords, hout⟩ := hs.step c
    exact ⟨⟨hs', hwords⟩, hout⟩
  obtain ⟨⟨-, hwords⟩, hout⟩ := Machine.simulation hstep ⟨TablePool.owned_start, rfl⟩
    fun _ (_ : _ ∈ calls) => trivial
  exact ⟨hout, hwords⟩

/-- Every node of the heap has one owner: it belongs to one open table, or it was given
back once and to no open table.  So no table reaches a node that was given back, no node is
given back twice, and when all tables are dropped all nodes were given back. -/
theorem pool_nodes_owned (calls : List PoolCall) :
    let s := poolMachine.run TablePool.start calls
    s.freed.Nodup ∧
      ∀ p, 0 < p → p < s.heap.next →
        (p ∈ s.freed ∧ ∀ id t, s.tables id = some t → ¬ IsNode s.heap t.l4PageTable p) ∨
        (p ∉ s.freed ∧ ∃! id, ∃ t, s.tables id = some t ∧ IsNode s.heap t.l4PageTable p) := by
  intro s
  have hs : s.Owned := TablePool.owned_run calls
  refine ⟨hs.freedOnce, fun p hpos hlt => ?_⟩
  by_cases hfreed : p ∈ s.freed
  · exact Or.inl ⟨hfreed, fun id t ht hp => hs.notFreed id t p ht hp hfreed⟩
  · obtain ⟨id, t, ht, hp⟩ := (hs.held p hpos hlt).resolve_left hfreed
    refine Or.inr ⟨hfreed, id, ⟨t, ht, hp⟩, ?_⟩
    rintro id' ⟨t', ht', hp'⟩
    exact hs.apart id' id t' t p ht' ht hp' hp

end Mitosis.Prefetcher
