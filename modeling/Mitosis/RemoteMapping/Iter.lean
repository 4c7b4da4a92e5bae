import Mathlib.Data.Finset.Card
import Mathlib.Order.Interval.Finset.Nat
import Mitosis.Support.OrderedScan
import Mitosis.RemoteMapping.Mapping

/-!
# The page-table iterator

`RemotePageTableIter` walks the non-zero slots of the level-one nodes.  It
climbs the back pointers to find the neighbour of an exhausted node.  The loops
of the source have no bound of their own, so the model gives them one and
answers `none` when it is reached; the specifications show that it never is.
-/

namespace Mitosis.RemoteMapping

open Support (IsNext Enumerates)

/-- The iterator: the level-one node at hand and the last index visited. -/
structure RemotePageTableIter where
  curPage : Ptr
  curIdx : ℤ
deriving DecidableEq

/-- A non-zero slot, as the iterator yields it. -/
structure PageEntry where
  page : Ptr
  index : PageTableIndex
  addr : PhysAddr
deriving DecidableEq

/-- The next node of the same level.  The outer `none` means that the
recursion has not ended within the bound. -/
def findTheNextNeighbour (h : Heap) : ℕ → Ptr → Option (Option Ptr)
  | 0, _ => none
  | bound + 1, src =>
    let upper := (h.node src).upperLevel
    if upper = 0 then some none
    else
      match (h.node upper).findValidEntry
          ((h.node src).upperLevelIndex.val + 1) with
      | some idx => some (some ((h.node upper).entries idx))
      | none =>
        match findTheNextNeighbour h bound upper with
        | none => none
        | some none => some none
        | some (some upper') =>
          some (((h.node upper').findValidEntry 0).map
            (h.node upper').entries)

def findTheFirstLevelOnePage (h : Heap) : ℕ → Ptr → Option (Option Ptr)
  | 0, _ => none
  | bound + 1, cur =>
    if (h.node cur).level = .one then some (some cur)
    else
      match (h.node cur).findValidEntry 0 with
      | none => some none
      | some idx => findTheFirstLevelOnePage h bound ((h.node cur).entries idx)

namespace RemotePageTableIter

def new (h : Heap) (t : RemotePageTable) :
    Option (Option RemotePageTableIter) :=
  (findTheFirstLevelOnePage h 4 t.l4PageTable).map
    fun r => r.map fun page => ⟨page, -1⟩

/-- Start behind one slot of a level-one node. -/
def newFromL1 (page : Ptr) (index : PageTableIndex) : RemotePageTableIter :=
  ⟨page, index.val⟩

/-- The loop of `next`. -/
def nextLoop (h : Heap) :
    ℕ → RemotePageTableIter → Option (RemotePageTableIter × Option PageEntry)
  | 0, _ => none
  | bound + 1, it =>
    let idx := it.curIdx + 1
    let found :=
      if idx ≥ 512 then none
      else (h.node it.curPage).findValidEntry idx.toNat
    match found with
    | some i =>
      some (⟨it.curPage, i.val⟩,
        some ⟨it.curPage, i, (h.node it.curPage).entries i⟩)
    | none =>
      match findTheNextNeighbour h 4 it.curPage with
      | none => none
      | some none => some (⟨it.curPage, -1⟩, none)
      | some (some page) => nextLoop h bound ⟨page, -1⟩

/-- The next non-zero slot.  No node is visited twice, so the number of nodes
bounds the loop. -/
def next (h : Heap) (it : RemotePageTableIter) :
    Option (RemotePageTableIter × Option PageEntry) :=
  nextLoop h h.next it

end RemotePageTableIter

/-! ## Neighbours -/

/-- The keys of the nodes of depth `k`; at depth four, of the mapped slots. -/
def Present (h : Heap) (root : Ptr) (k key : ℕ) : Prop :=
  ∃ p, nodeAt h root k key = some p

variable {h : Heap} {root : Ptr}

variable {k key : ℕ} {p : Ptr} {bound : ℕ}

theorem present_parent (hp : Present h root (k + 1) key) :
    Present h root k (key / 512) := by
  obtain ⟨c, hc⟩ := hp
  obtain ⟨p, hp, -⟩ := nodeAt_succ_eq_some.mp hc
  exact ⟨p, hp⟩

theorem present_child_iff (hp : nodeAt h root k key = some p) (i : PageTableIndex) :
    Present h root (k + 1) (512 * key + i.val) ↔
      (h.node p).entries i ≠ 0 := by
  rw [Present, nodeAt_child hp]
  constructor
  · rintro ⟨c, hc⟩
    obtain ⟨rfl, hne⟩ := lookupTable_eq_some.mp hc
    exact hne
  · intro hne
    exact ⟨_, lookupTable_eq_some.mpr ⟨rfl, hne⟩⟩

theorem isNext_of_findValidEntry {k key start : ℕ}
    (hp : nodeAt h root k key = some p) {i : PageTableIndex}
    (hi : (h.node p).findValidEntry start = some i) :
    IsNext (Present h root (k + 1)) (512 * key + start)
        (some (512 * key + i.val)) ∧
      nodeAt h root (k + 1) (512 * key + i.val) =
        some ((h.node p).entries i) := by
  obtain ⟨hle, hne, hbefore⟩ := PageTable.findValidEntry_eq_some hi
  constructor
  · refine IsNext.sameBlock hle ((present_child_iff hp i).mpr hne) ?_
    intro m hm hlt hpres
    have hm512 : m < 512 := hlt.trans i.isLt
    exact (present_child_iff hp ⟨m, hm512⟩).mp hpres
      (hbefore ⟨m, hm512⟩ hm hlt)
  · rw [nodeAt_child hp]
    exact lookupTable_eq_some.mpr ⟨rfl, hne⟩

theorem not_present_of_findValidEntry {k key start : ℕ}
    (hp : nodeAt h root k key = some p)
    (hnone : (h.node p).findValidEntry start = none) :
    ∀ m, start ≤ m → m < 512 → ¬ Present h root (k + 1) (512 * key + m) := by
  intro m hm hlt hpres
  exact (present_child_iff hp ⟨m, hlt⟩).mp hpres
    (PageTable.findValidEntry_eq_none.mp hnone ⟨m, hlt⟩ hm)

theorem findTheNextNeighbour_spec (hw : WellFormed h root) (hk : k ≤ 3)
    (hp : nodeAt h root k key = some p) (hbound : k < bound) :
    ∃ r, IsNext (Present h root k) (key + 1) r ∧
      findTheNextNeighbour h bound p = some (r.bind (nodeAt h root k)) := by
  induction k generalizing key p bound with
  | zero =>
    obtain ⟨bound, rfl⟩ := Nat.exists_eq_add_of_lt hbound
    have hroot : p = root := by
      simp only [nodeAt, Option.ite_none_right_eq_some,
        Option.some.injEq] at hp
      exact hp.2.symm
    refine ⟨none, ?_, ?_⟩
    · rintro c hc ⟨q, hq⟩
      have := nodeAt_lt hq
      simp only [pow_zero] at this
      omega
    · rw [hroot, findTheNextNeighbour]
      simp only [hw.rootUpper, if_true, Option.bind_none]
  | succ k ih =>
    obtain ⟨bound, rfl⟩ := Nat.exists_eq_add_of_lt hbound
    obtain ⟨q, hq, -⟩ := nodeAt_succ_eq_some.mp hp
    obtain ⟨hup, hidx⟩ := hw.upper k key q p (by omega) hq hp
    have hq0 : q ≠ 0 := nodeAt_ne_zero hw.root_ne hq
    have hstart : key + 1 = 512 * (key / 512) + (key % 512 + 1) := by omega
    simp only [findTheNextNeighbour, hup, hidx, newTruncate_val, if_neg hq0]
    cases hfind : (h.node q).findValidEntry (key % 512 + 1) with
    | some i =>
      obtain ⟨hnext, hnode⟩ := isNext_of_findValidEntry hq hfind
      exact ⟨some (512 * (key / 512) + i.val), hstart ▸ hnext,
        by simp [hnode]⟩
    | none =>
      have hrest := not_present_of_findValidEntry hq hfind
      have hle : key % 512 + 1 ≤ 512 := by omega
      have hbound' : k < k + 1 + bound := by omega
      obtain ⟨r, hr, hrec⟩ := ih (by omega) hq hbound'
      simp only [hrec]
      cases r with
      | none =>
        refine ⟨none, ?_, by simp⟩
        rw [hstart]
        exact IsNext.skipBlock hle hrest
          (IsNext.noBlock (fun _ => present_parent) (by norm_num) hr)
      | some key' =>
        obtain ⟨q', hq'⟩ := hr.holds
        have hinhabited : Inhabited h root k := by
          have hlt := nodeAt_lt hq'
          have hge := hr.le
          have hle2 : k ≤ 2 := Nat.le_of_succ_le_succ hk
          interval_cases k
          · simp only [pow_zero] at hlt
            omega
          · exact hw.inhabitedOne
          · exact hw.inhabitedTwo
        obtain ⟨i₀, hi₀⟩ := hinhabited key' q' hq'
        simp only [Option.bind_some, hq']
        cases hfirst : (h.node q').findValidEntry 0 with
        | none =>
          exact absurd (PageTable.findValidEntry_eq_none.mp hfirst
            i₀ (Nat.zero_le _)) hi₀
        | some i =>
          obtain ⟨hnext, hnode⟩ :=
            isNext_of_findValidEntry hq' hfirst
          refine ⟨some (512 * key' + i.val), ?_, by simp [hnode]⟩
          rw [hstart]
          exact IsNext.skipBlock hle hrest
            (IsNext.laterBlock (fun _ => present_parent)
              (by norm_num) hr hnext)

/-- Descending by first entries from the first node of a depth ends in the
first level-one node. -/
theorem findTheFirstLevelOnePage_spec (hw : WellFormed h root) (hk : k ≤ 3)
    (hp : nodeAt h root k key = some p)
    (hfirst : IsNext (Present h root k) 0 (some key)) (hbound : 3 < k + bound) :
    ∃ r, IsNext (Present h root 3) 0 r ∧
      findTheFirstLevelOnePage h bound p =
        some (r.bind (nodeAt h root 3)) := by
  induction bound generalizing k key p with
  | zero => omega
  | succ bound ih =>
    rw [findTheFirstLevelOnePage, hw.level k key p hk hp]
    rcases hk.eq_or_lt with rfl | hlt
    · exact ⟨some key, hfirst, by simp [levelAt, hp]⟩
    · have hlevel : levelAt k ≠ .one := by
        intro heq
        have hthree : levelAt k = levelAt 3 := heq
        exact hlt.ne (levelAt_injective hk le_rfl hthree)
      rw [if_neg hlevel]
      cases hfind : (h.node p).findValidEntry 0 with
      | some i =>
        obtain ⟨hnext, hnode⟩ := isNext_of_findValidEntry hp hfind
        exact ih (by omega) hnode (IsNext.laterBlock (b := 512)
          (fun _ => present_parent) (by norm_num) hfirst hnext)
          (by omega)
      | none =>
        -- only the root can be empty
        have hzero : k = 0 := by
          have hall := PageTable.findValidEntry_eq_none.mp hfind
          interval_cases k
          · rfl
          · obtain ⟨i, hi⟩ := hw.inhabitedOne key p hp
            exact absurd (hall i (Nat.zero_le _)) hi
          · obtain ⟨i, hi⟩ := hw.inhabitedTwo key p hp
            exact absurd (hall i (Nat.zero_le _)) hi
        subst k
        refine ⟨none, ?_, by simp⟩
        have hempty : ∀ c, ¬ Present h root 1 c := by
          intro c hc
          obtain ⟨q, hq⟩ := hc
          have hparent := nodeAt_lt hp
          obtain ⟨q', hq', -⟩ := nodeAt_succ_eq_some.mp hq
          have hkey := nodeAt_lt hq'
          simp only [pow_zero, Nat.lt_one_iff] at hparent hkey
          have hrest := not_present_of_findValidEntry hp hfind c
            (Nat.zero_le c) (by omega)
          rw [hparent] at hrest
          exact hrest (by simpa using ⟨q, hq⟩)
        intro c _ hc
        exact hempty _ (present_parent (present_parent hc))

/-! ## Positions and steps of the iterator -/

/-- The iterator stands on a level-one node and has passed exactly the slots
before `start`. -/
structure Position (h : Heap) (root : Ptr) (it : RemotePageTableIter)
    (start : ℕ) : Prop where
  page : ∃ key, nodeAt h root 3 key = some it.curPage ∧
    (start : ℤ) = 512 * key + (it.curIdx + 1)
  idx : -1 ≤ it.curIdx ∧ it.curIdx < 512

theorem position_newFromL1 {key : ℕ} (hp : nodeAt h root 3 key = some p)
    (i : PageTableIndex) :
    Position h root (RemotePageTableIter.newFromL1 p i) (512 * key + i.val + 1) where
  page := by
    refine ⟨key, hp, ?_⟩
    simp only [RemotePageTableIter.newFromL1]
    push_cast
    ring
  idx := by
    simp only [RemotePageTableIter.newFromL1]
    omega

/-- The entry the iterator yields for a slot. -/
def entryAt (h : Heap) (root : Ptr) (slot : ℕ) : Option PageEntry := do
  let page ← nodeAt h root 3 (slot / 512)
  let word ← nodeAt h root 4 slot
  some ⟨page, .newTruncate slot, word⟩

theorem entryAt_eq_some_iff {slot : ℕ} {e : PageEntry} :
    entryAt h root slot = some e ↔
      nodeAt h root 3 (slot / 512) = some e.page ∧ nodeAt h root 4 slot = some e.addr ∧
        .newTruncate slot = e.index := by
  simp only [entryAt, Option.bind_eq_bind, Option.bind_eq_some_iff, Option.some.injEq]
  constructor
  · rintro ⟨p, hp, w, hw, rfl⟩
    exact ⟨hp, hw, rfl⟩
  · rintro ⟨hp, hw, hi⟩
    exact ⟨_, hp, _, hw, by rw [hi]⟩

theorem entryAt_child {key : ℕ}
    (hp : nodeAt h root 3 key = some p) (i : PageTableIndex)
    (hne : (h.node p).entries i ≠ 0) :
    entryAt h root (512 * key + i.val) =
      some ⟨p, i, (h.node p).entries i⟩ := by
  have hword := nodeAt_child hp i
  rw [lookupTable_eq_some.mpr ⟨rfl, hne⟩] at hword
  simp [entryAt, child_div, hp, hword, newTruncate_child]

/-- The level-one nodes behind a key. -/
noncomputable def laterPages (h : Heap) (root : Ptr) (key : ℕ) : Finset ℕ :=
  open Classical in
  (Finset.range (512 ^ 3)).filter fun k => key < k ∧ Present h root 3 k

theorem mem_laterPages {key k : ℕ} :
    k ∈ laterPages h root key ↔ key < k ∧ Present h root 3 k := by
  simp only [laterPages, Finset.mem_filter, Finset.mem_range,
    and_iff_right_iff_imp]
  rintro ⟨-, p, hp⟩
  exact nodeAt_lt hp

theorem card_laterPages_lt_of_isNext {key k : ℕ}
    (hk : IsNext (Present h root 3) (key + 1) (some k)) :
    (laterPages h root k).card < (laterPages h root key).card := by
  apply Finset.card_lt_card
  rw [Finset.ssubset_iff_of_subset]
  · refine ⟨k, mem_laterPages.mpr ⟨hk.le, hk.holds⟩, ?_⟩
    rw [mem_laterPages]
    exact fun hlt => lt_irrefl k hlt.1
  · intro c hc
    obtain ⟨hlt, hpres⟩ := mem_laterPages.mp hc
    exact mem_laterPages.mpr ⟨lt_trans hk.le hlt, hpres⟩

theorem card_laterPages_lt (hw : WellFormed h root) (key : ℕ) :
    (laterPages h root key).card < h.next := by
  have hcard : (laterPages h root key).card ≤
      (Finset.Ioo 0 h.next).card := by
    apply Finset.card_le_card_of_injOn
      fun k => (nodeAt h root 3 k).getD 0
    · intro k hk
      obtain ⟨-, p, hp⟩ := mem_laterPages.mp hk
      simp only [hp, Option.getD_some, Finset.coe_Ioo, Set.mem_Ioo]
      exact ⟨Nat.pos_of_ne_zero (nodeAt_ne_zero hw.root_ne hp),
        hw.allocated 3 k p le_rfl hp⟩
    · intro k hk k' hk' heq
      obtain ⟨-, p, hp⟩ := mem_laterPages.mp hk
      obtain ⟨-, p', hp'⟩ := mem_laterPages.mp hk'
      simp only [hp, hp', Option.getD_some] at heq
      subst heq
      exact hw.key_eq le_rfl hp hp'
  rw [Nat.card_Ioo] at hcard
  exact hcard.trans_lt (Nat.sub_lt h.next_pos Nat.one_pos)

/-- The outcome of one call of `next` at a position. -/
structure NextOutcome (h : Heap) (root : Ptr) (start : ℕ)
    (result : Option (RemotePageTableIter × Option PageEntry)) : Prop where
  spec : ∃ it r, result = some (it, r.bind (entryAt h root)) ∧
    IsNext (Present h root 4) start r ∧
    (∀ slot, r = some slot → Position h root it (slot + 1)) ∧
    ∃ start', Position h root it start'

/-- The loop of `next` finds the next mapped slot. -/
theorem nextLoop_spec (hw : WellFormed h root) {key : ℕ}
    (hp : nodeAt h root 3 key = some p) {idx : ℤ} (hge : -1 ≤ idx)
    (hlt : idx < 512)
    (hbound : (laterPages h root key).card < bound) :
    NextOutcome h root (512 * key + (idx + 1).toNat)
      (RemotePageTableIter.nextLoop h bound ⟨p, idx⟩) := by
  induction bound generalizing key p idx with
  | zero => omega
  | succ bound ih =>
    have hle : (idx + 1).toNat ≤ 512 := by omega
    rw [RemotePageTableIter.nextLoop]
    dsimp only
    generalize hfound : (if idx + 1 ≥ 512 then none
      else (h.node p).findValidEntry (idx + 1).toNat) = found
    cases found with
    | some i =>
      have hfind : (h.node p).findValidEntry (idx + 1).toNat =
          some i := by
        split at hfound
        · cases hfound
        · exact hfound
      obtain ⟨hnext, -⟩ := isNext_of_findValidEntry hp hfind
      have hpos : Position h root ⟨p, i.val⟩ (512 * key + i.val + 1) :=
        ⟨⟨key, hp, by push_cast; ring⟩, by dsimp only; omega⟩
      refine ⟨_, some (512 * key + i.val), ?_, hnext, ?_, _, hpos⟩
      · rw [Option.bind_some, entryAt_child hp i
          ((present_child_iff hp i).mp hnext.holds)]
      · rintro slot ⟨⟩
        exact hpos
    | none =>
      have hrest : ∀ m, (idx + 1).toNat ≤ m → m < 512 →
          ¬ Present h root 4 (512 * key + m) := by
        intro m hm hm'
        split at hfound
        · omega
        · exact not_present_of_findValidEntry hp hfound m hm hm'
      obtain ⟨r, hr, hneighbour⟩ :=
        findTheNextNeighbour_spec hw le_rfl hp (by norm_num : 3 < 4)
      dsimp only
      rw [hneighbour]
      cases r with
      | none =>
        have hpos : Position h root ⟨p, -1⟩ (512 * key) :=
          ⟨⟨key, hp, by push_cast; ring⟩, by dsimp only; omega⟩
        refine ⟨_, none, rfl, IsNext.skipBlock hle hrest
          (IsNext.noBlock (fun _ => present_parent) (by norm_num) hr),
          fun _ hslot => (by cases hslot), _, hpos⟩
      | some key' =>
        obtain ⟨q, hq⟩ := hr.holds
        rw [Option.bind_some, hq]
        have hfewer := card_laterPages_lt_of_isNext hr
        obtain ⟨it, r', heq, hnext, hpos⟩ :=
          ih hq (by norm_num : (-1 : ℤ) ≤ -1) (by norm_num) (by omega)
        exact ⟨it, r', heq, IsNext.skipBlock hle hrest
          (IsNext.laterBlock (fun _ => present_parent) (by norm_num) hr
            hnext), hpos⟩

theorem next_spec (hw : WellFormed h root) {it : RemotePageTableIter}
    {start : ℕ} (hpos : Position h root it start) :
    NextOutcome h root start (it.next h) := by
  obtain ⟨⟨key, hp, hstart⟩, hge, hlt⟩ := hpos
  have heq : start = 512 * key + (it.curIdx + 1).toNat := by omega
  rw [heq]
  exact nextLoop_spec hw hp hge hlt (card_laterPages_lt hw key)

/-- The entries an iterator yields before it answers `None`. -/
inductive Yields (h : Heap) : RemotePageTableIter → List PageEntry → Prop
  | done {it it' : RemotePageTableIter} :
      it.next h = some (it', none) → Yields h it []
  | step {it it' : RemotePageTableIter} {e : PageEntry}
      {es : List PageEntry} :
      it.next h = some (it', some e) → Yields h it' es →
        Yields h it (e :: es)

/-- From its position on, the iterator yields the mapped slots in order. -/
theorem yields_of_position (hw : WellFormed h root)
    {it : RemotePageTableIter} {start : ℕ}
    (hpos : Position h root it start) :
    ∃ slots es, Enumerates (Present h root 4) start slots ∧
      Yields h it es ∧
      List.Forall₂ (fun slot e => entryAt h root slot = some e) slots es := by
  -- the slots left are at most those between `start` and the last one
  induction hmeasure : 512 ^ 4 - start using Nat.strong_induction_on
      generalizing it start with
  | _ n ih =>
    obtain ⟨it', r, hnext, hr, hpos', -⟩ := next_spec hw hpos
    cases r with
    | none => exact ⟨[], [], .nil hr, .done hnext, .nil⟩
    | some slot =>
      obtain ⟨w, hw'⟩ := hr.holds
      have hlt := nodeAt_lt hw'
      have hle := hr.le
      obtain ⟨slots, es, hslots, hes, hentries⟩ :=
        ih (512 ^ 4 - (slot + 1)) (by omega) (hpos' slot rfl) rfl
      obtain ⟨p, hp, -⟩ := nodeAt_succ_eq_some.mp hw'
      have hentry : entryAt h root slot = some ⟨p, .newTruncate slot, w⟩ :=
        entryAt_eq_some_iff.mpr ⟨hp, hw', rfl⟩
      rw [Option.bind_some, hentry] at hnext
      exact ⟨slot :: slots, _ :: es, .cons hr hslots, .step hnext hes,
        .cons hentry hentries⟩

end Mitosis.RemoteMapping
