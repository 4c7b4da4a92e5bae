import Mitosis.RemoteMapping.FiniteMap
import Mitosis.RemoteMapping.Iter

/-!
# Iterating in address order

Tables are changed by mapping calls with any word and by assignments to single
level-one slots, which is how the fault handler and the prefetcher clear and
rewrite them.  Over every table reached in this way the iterator yields the
non-zero slots in the order of their virtual addresses.
-/

namespace Mitosis.RemoteMapping

open Support (Machine IsNext Enumerates)

/-- A change of a page table: a mapping call, or the assignment of a word to
the level-one slot of an address. -/
inductive SlotCall where
  | call (c : MapCall)
  | overwrite (addr : VirtAddr) (word : PhysAddr)
deriving DecidableEq

/-- The changes on the radix tree.  An address without a level-one node has no
slot to overwrite. -/
def slotMachine :
    Machine (Heap × RemotePageTable) SlotCall (Option PhysAddr) where
  step
    | s, .call c => tableMachine.step s c
    | (h, t), .overwrite a w =>
      match t.findL1PageIdx h a with
      | some (page, index) => ((h.setEntry page index w, t), none)
      | none => ((h, t), none)

variable {h : Heap} {t : RemotePageTable} {p : Ptr}

variable {s : Heap × RemotePageTable} {a : VirtAddr}

theorem tableMachine_wellFormed (hw : WellFormed s.1 s.2.l4PageTable) (c : MapCall) :
    WellFormed (tableMachine.step s c).1.1
      (tableMachine.step s c).1.2.l4PageTable := by
  obtain ⟨h, t⟩ := s
  cases c with
  | map a w =>
    simp only [tableMachine]
    cases htr : t.translate h a with
    | some w₀ =>
      rw [map_of_present hw htr]
      exact hw
    | none =>
      obtain ⟨-, hroot, -, ha⟩ := map_of_absent hw htr w
      rw [hroot]
      exact ha.wellFormed
  | forceMap a w =>
    obtain ⟨hroot, -, ha⟩ := forceMap_spec (a := a) hw w
    simp only [tableMachine, hroot]
    exact ha.wellFormed

theorem findL1PageIdx_eq_some {i : PageTableIndex} :
    t.findL1PageIdx h a = some (p, i) ↔
      nodeAt h t.l4PageTable 3 (a.pageKey / 512) = some p ∧
        PageTableIndex.newTruncate a.pageKey = i := by
  rw [findL1PageIdx_eq]
  cases nodeAt h t.l4PageTable 3 (a.pageKey / 512) with
  | none => simp
  | some q => simp

theorem slotMachine_wellFormed (hw : WellFormed s.1 s.2.l4PageTable) (c : SlotCall) :
    WellFormed (slotMachine.step s c).1.1
      (slotMachine.step s c).1.2.l4PageTable := by
  cases c with
  | call c => exact tableMachine_wellFormed hw c
  | overwrite a w =>
    obtain ⟨h, t⟩ := s
    simp only [slotMachine]
    cases hfind : t.findL1PageIdx h a with
    | none => exact hw
    | some slot =>
      obtain ⟨p, i⟩ := slot
      exact hw.setEntry_levelOne (findL1PageIdx_eq_some.mp hfind).1 i w

theorem slotMachine_run_wellFormed (h : Heap) (calls : List SlotCall) :
    let s := slotMachine.run (RemotePageTable.new h) calls
    WellFormed s.1 s.2.l4PageTable :=
  Machine.invariant 
    (fun s : Heap × RemotePageTable => WellFormed s.1 s.2.l4PageTable)
    (fun _ c hw (_ : True) => slotMachine_wellFormed hw c)
    (wellFormed_new h) (Machine.always_of_forall (fun _ _ => trivial) _ _)

theorem wellFormed_of_run (h : Heap) (calls : List SlotCall) (s : Heap × RemotePageTable)
    (hs : s = slotMachine.run (RemotePageTable.new h) calls) :
    WellFormed s.1 s.2.l4PageTable := by
  rw [hs]
  exact slotMachine_run_wellFormed h calls

/-! ## Slots and addresses -/

/-- The entries are those of the non-zero slots whose page address is
admitted, each once, in increasing order of their addresses. -/
def SlotsInOrder (h : Heap) (t : RemotePageTable)
    (admitted : VirtAddr → Prop) (es : List PageEntry) : Prop :=
  ∃ addrs : List VirtAddr,
    addrs.Pairwise (fun a b => a.addr < b.addr) ∧
    (∀ a, a ∈ addrs ↔
      a.addr % 4096 = 0 ∧ (∃ w, t.translate h a = some w) ∧ admitted a) ∧
    List.Forall₂ (fun a e => t.findL1PageIdx h a = some (e.page, e.index) ∧
      t.translate h a = some e.addr) addrs es

/-- A level-one node of the table, with any of its slots. -/
def LevelOnePage (h : Heap) (t : RemotePageTable) (p : Ptr) : Prop :=
  ∃ a i, t.findL1PageIdx h a = some (p, i)

variable {slot start : ℕ} {es : List PageEntry} {it : RemotePageTableIter}

theorem present_four_lt {root : Ptr}
    (hp : Present h root 4 slot) : slot < 2 ^ 36 := by
  obtain ⟨w, hw⟩ := hp
  have hlt := nodeAt_lt hw
  norm_num at hlt ⊢
  exact hlt

theorem translate_of_nodeAt {w : PhysAddr}
    (hw : nodeAt h t.l4PageTable 4 slot = some w) : t.translate h (.ofPageKey slot) = some w := by
  rw [translate_eq, VirtAddr.pageKey_ofPageKey (present_four_lt ⟨w, hw⟩)]
  exact hw

theorem present_four_iff (a : VirtAddr) :
    Present h t.l4PageTable 4 a.pageKey ↔
      ∃ w, t.translate h a = some w := by
  simp only [translate_eq, Present]

theorem entryAt_eq_some {e : PageEntry} (he : entryAt h t.l4PageTable a.pageKey = some e) :
    t.findL1PageIdx h a = some (e.page, e.index) ∧
      t.translate h a = some e.addr := by
  obtain ⟨hp, hw, hi⟩ := entryAt_eq_some_iff.mp he
  exact ⟨findL1PageIdx_eq_some.mpr ⟨hp, hi⟩, (translate_eq h t a).trans hw⟩

theorem slotsInOrder_of_enumerates {slots : List ℕ}
    (hslots : Enumerates (Present h t.l4PageTable 4) start slots)
    (hes : List.Forall₂
      (fun slot e => entryAt h t.l4PageTable slot = some e) slots es) :
    SlotsInOrder h t (fun a => start ≤ a.pageKey) es := by
  have hkey : ∀ slot ∈ slots, (VirtAddr.ofPageKey slot).pageKey = slot :=
    fun slot hslot => VirtAddr.pageKey_ofPageKey
      (present_four_lt ((hslots.mem slot).mp hslot).2)
  refine ⟨slots.map VirtAddr.ofPageKey, ?_, ?_, ?_⟩
  · rw [List.pairwise_map]
    refine hslots.sorted.imp_of_mem ?_
    intro a b ha hb hlt
    rw [VirtAddr.addr_lt_iff (VirtAddr.ofPageKey_mod a)
      (VirtAddr.ofPageKey_mod b), hkey a ha, hkey b hb]
    exact hlt
  · intro a
    rw [List.mem_map]
    constructor
    · rintro ⟨slot, hslot, rfl⟩
      obtain ⟨hle, hpres⟩ := (hslots.mem slot).mp hslot
      dsimp only
      rw [← present_four_iff, hkey slot hslot]
      exact ⟨VirtAddr.ofPageKey_mod slot, hpres, hle⟩
    · rintro ⟨halign, hmapped, hle⟩
      exact ⟨a.pageKey,
        (hslots.mem a.pageKey).mpr ⟨hle, (present_four_iff a).mpr hmapped⟩,
        VirtAddr.ofPageKey_pageKey halign⟩
  · rw [List.forall₂_map_left_iff]
    refine (List.forall₂_and_left _ _ |>.mpr ⟨hkey, hes⟩).imp ?_
    rintro slot e ⟨hslot, he⟩
    exact entryAt_eq_some (by rwa [hslot])

theorem yields_in_order (hw : WellFormed h t.l4PageTable)
    (hpos : Position h t.l4PageTable it start) :
    ∃ es, Yields h it es ∧
      SlotsInOrder h t (fun a => start ≤ a.pageKey) es := by
  obtain ⟨slots, es, hslots, hyields, hes⟩ := yields_of_position hw hpos
  exact ⟨es, hyields, slotsInOrder_of_enumerates hslots hes⟩

theorem SlotsInOrder.congr {admitted admitted' : VirtAddr → Prop}
    (hes : SlotsInOrder h t admitted es)
    (hiff : ∀ a : VirtAddr, a.addr % 4096 = 0 →
      (∃ w, t.translate h a = some w) → (admitted a ↔ admitted' a)) :
    SlotsInOrder h t admitted' es := by
  obtain ⟨addrs, hsorted, hmem, hentries⟩ := hes
  refine ⟨addrs, hsorted, ?_, hentries⟩
  intro a
  rw [hmem]
  constructor
  · rintro ⟨halign, hmapped, hadm⟩
    exact ⟨halign, hmapped, (hiff a halign hmapped).mp hadm⟩
  · rintro ⟨halign, hmapped, hadm⟩
    exact ⟨halign, hmapped, (hiff a halign hmapped).mpr hadm⟩

theorem levelOnePage_iff :
    LevelOnePage h t p ↔ ∃ key, nodeAt h t.l4PageTable 3 key = some p := by
  constructor
  · rintro ⟨a, i, hfind⟩
    exact ⟨_, (findL1PageIdx_eq_some.mp hfind).1⟩
  · rintro ⟨key, hp⟩
    have hlt := nodeAt_lt hp
    have hkey : 512 * key < 2 ^ 36 := by omega
    refine ⟨VirtAddr.ofPageKey (512 * key), _, findL1PageIdx_eq_some.mpr
      ⟨?_, rfl⟩⟩
    rw [VirtAddr.pageKey_ofPageKey hkey, Nat.mul_div_cancel_left _ (by norm_num)]
    exact hp

theorem exists_slot_address {key : ℕ} (hp : nodeAt h t.l4PageTable 3 key = some p)
    (i : PageTableIndex) :
    ∃ a : VirtAddr, a.addr % 4096 = 0 ∧ a.pageKey = 512 * key + i.val ∧
      t.findL1PageIdx h a = some (p, i) := by
  have hlt := nodeAt_lt hp
  have hkey : (VirtAddr.ofPageKey (512 * key + i.val)).pageKey =
      512 * key + i.val :=
    VirtAddr.pageKey_ofPageKey (by omega)
  refine ⟨_, VirtAddr.ofPageKey_mod _, hkey, findL1PageIdx_eq_some.mpr ?_⟩
  rw [hkey, child_div, newTruncate_child]
  exact ⟨hp, rfl⟩

theorem new_eq (hw : WellFormed h t.l4PageTable) :
    ∃ r, IsNext (Present h t.l4PageTable 3) 0 r ∧
      RemotePageTableIter.new h t =
        some ((r.bind (nodeAt h t.l4PageTable 3)).map fun page => ⟨page, -1⟩) := by
  have hroot : nodeAt h t.l4PageTable 0 0 = some t.l4PageTable := rfl
  have hfirst : IsNext (Present h t.l4PageTable 0) 0 (some 0) :=
    ⟨⟨le_rfl, _, hroot⟩, fun c _ => Nat.zero_le c⟩
  obtain ⟨r, hr, hpage⟩ :=
    findTheFirstLevelOnePage_spec hw (by norm_num) hroot hfirst
      (by norm_num : 3 < 0 + 4)
  refine ⟨r, hr, ?_⟩
  rw [RemotePageTableIter.new, hpage]
  rfl

/-- What an iterator over the whole table yields; an empty table has no
iterator. -/
def NewYields (h : Heap) (t : RemotePageTable) (es : List PageEntry) : Prop :=
  (RemotePageTableIter.new h t = some none ∧ es = []) ∨
    ∃ it, RemotePageTableIter.new h t = some (some it) ∧ Yields h it es

theorem exists_newYields (hw : WellFormed h t.l4PageTable) :
    ∃ slots es, Enumerates (Present h t.l4PageTable 4) 0 slots ∧ NewYields h t es ∧
      List.Forall₂ (fun slot e => entryAt h t.l4PageTable slot = some e) slots es := by
  obtain ⟨r, hr, hnew⟩ := new_eq hw
  cases r with
  | none =>
    have hnone : IsNext (Present h t.l4PageTable 4) (512 * 0) none :=
      IsNext.noBlock (fun _ => present_parent) (by norm_num) hr
    exact ⟨[], [], .nil hnone, Or.inl ⟨hnew, rfl⟩, .nil⟩
  | some key =>
    obtain ⟨p, hp⟩ := hr.holds
    rw [Option.bind_some, hp] at hnew
    have hpos : Position h t.l4PageTable ⟨p, -1⟩ (512 * key) :=
      ⟨⟨key, hp, by push_cast; ring⟩, by dsimp only; omega⟩
    obtain ⟨slots, es, hslots, hyields, hes⟩ := yields_of_position hw hpos
    refine ⟨slots, es, ⟨hslots.sorted, fun slot => ?_⟩, Or.inr ⟨_, hnew, hyields⟩, hes⟩
    rw [hslots.mem]
    constructor
    · exact fun hslot => ⟨Nat.zero_le _, hslot.2⟩
    · rintro ⟨-, hpres⟩
      -- no slot lies before the first level-one node
      have hle : key ≤ slot / 512 := hr.2 ⟨Nat.zero_le _, present_parent hpres⟩
      exact ⟨by omega, hpres⟩

theorem Yields.unique {es es' : List PageEntry}
    (hes : Yields h it es) (hes' : Yields h it es') : es = es' := by
  induction hes generalizing es' with
  | done hnext =>
    cases hes' with
    | done _ => rfl
    | step hnext' _ =>
      rw [hnext] at hnext'
      cases hnext'
  | step hnext _ ih =>
    cases hes' with
    | done hnext' =>
      rw [hnext] at hnext'
      cases hnext'
    | step hnext' hrest =>
      rw [hnext] at hnext'
      cases hnext'
      rw [ih hrest]

theorem new_yields_in_order (hw : WellFormed h t.l4PageTable) :
    ∃ r, RemotePageTableIter.new h t = some r ∧
      (r = none → SlotsInOrder h t (fun _ => True) []) ∧
      (∀ it, r = some it →
        ∃ es, Yields h it es ∧ SlotsInOrder h t (fun _ => True) es) := by
  obtain ⟨slots, es, hslots, hnew, hes⟩ := exists_newYields hw
  have horder : SlotsInOrder h t (fun _ => True) es :=
    (slotsInOrder_of_enumerates hslots hes).congr fun a _ _ => by simp
  rcases hnew with ⟨hnew, rfl⟩ | ⟨it, hnew, hyields⟩
  · exact ⟨none, hnew, fun _ => horder, nofun⟩
  · refine ⟨some it, hnew, nofun, ?_⟩
    rintro it' ⟨⟩
    exact ⟨es, hyields, horder⟩

/-- Over every table reached by mapping calls and slot assignments, a new
iterator yields exactly the non-zero slots in the order of their addresses, an
iterator that starts at a slot of a level-one node yields exactly the later
ones, and every call of `next` ends. -/
theorem iterator_yields_slots_in_order (h₀ : Heap) (calls : List SlotCall) :
    let s := slotMachine.run (RemotePageTable.new h₀) calls
    (∃ r, RemotePageTableIter.new s.1 s.2 = some r ∧
      (r = none → SlotsInOrder s.1 s.2 (fun _ => True) []) ∧
      (∀ it, r = some it →
        ∃ es, Yields s.1 it es ∧ SlotsInOrder s.1 s.2 (fun _ => True) es)) ∧
    (∀ p, LevelOnePage s.1 s.2 p → ∀ i : PageTableIndex,
      ∃ a : VirtAddr, a.addr % 4096 = 0 ∧
        s.2.findL1PageIdx s.1 a = some (p, i) ∧
        ∃ es, Yields s.1 (RemotePageTableIter.newFromL1 p i) es ∧
          SlotsInOrder s.1 s.2 (fun b => a.addr < b.addr) es) ∧
    (∀ it : RemotePageTableIter, LevelOnePage s.1 s.2 it.curPage →
      -1 ≤ it.curIdx → it.curIdx < 512 →
      ∃ it' e, it.next s.1 = some (it', e) ∧
        LevelOnePage s.1 s.2 it'.curPage ∧
        -1 ≤ it'.curIdx ∧ it'.curIdx < 512) := by
  intro s
  have hw : WellFormed s.1 s.2.l4PageTable :=
    slotMachine_run_wellFormed h₀ calls
  refine ⟨new_yields_in_order hw, ?_, ?_⟩
  · intro p hlevel i
    obtain ⟨key, hp⟩ := levelOnePage_iff.mp hlevel
    obtain ⟨a, halign, hkey, hfind⟩ := exists_slot_address hp i
    have hpos := position_newFromL1 hp i
    rw [← hkey] at hpos
    obtain ⟨es, hyields, hes⟩ := yields_in_order hw hpos
    refine ⟨a, halign, hfind, es, hyields, hes.congr ?_⟩
    intro b hb _
    rw [VirtAddr.addr_lt_iff halign hb]
    exact Iff.rfl
  · intro it hlevel hge hlt
    obtain ⟨key, hp⟩ := levelOnePage_iff.mp hlevel
    have hpos : Position s.1 s.2.l4PageTable it
        (512 * key + (it.curIdx + 1).toNat) :=
      ⟨⟨key, hp, by push_cast; omega⟩, hge, hlt⟩
    obtain ⟨it', r, hnext, -, -, start', ⟨key', hp', -⟩, hidx⟩ :=
      next_spec hw hpos
    exact ⟨it', _, hnext, levelOnePage_iff.mpr ⟨key', hp'⟩, hidx⟩

/-- Slots in two level-one nodes; the one between them was emptied again. -/
theorem iterator_yields_slots_in_order_two_nodes :
    let a : VirtAddr := ⟨0x1000, by decide⟩
    let b : VirtAddr := ⟨0x203000, by decide⟩
    let s := slotMachine.run (RemotePageTable.new Heap.empty)
      [.call (.map b 0x9000), .call (.map a 0x8000), .call (.map ⟨0x2000, by decide⟩ 0x7000),
        .overwrite ⟨0x2000, by decide⟩ 0]
    s.2.findL1PageIdx s.1 a = some (5, 1) ∧ s.2.findL1PageIdx s.1 b = some (4, 3) ∧
      SlotsInOrder s.1 s.2 (fun _ => True) [⟨5, 1, 0x8000⟩, ⟨4, 3, 0x9000⟩] ∧
      ∃ c : VirtAddr, s.2.findL1PageIdx s.1 c = some (5, 1) ∧
        SlotsInOrder s.1 s.2 (fun d => c.addr < d.addr) [⟨4, 3, 0x9000⟩] := by
  intro a b s
  have hfind : s.2.findL1PageIdx s.1 a = some (5, 1) := by decide +kernel
  have hnew : RemotePageTableIter.new s.1 s.2 = some (some ⟨5, -1⟩) := by decide +kernel
  have hfirst : (⟨5, -1⟩ : RemotePageTableIter).next s.1 =
      some (⟨5, 1⟩, some ⟨5, 1, 0x8000⟩) := by decide +kernel
  have hsecond : (⟨5, 1⟩ : RemotePageTableIter).next s.1 =
      some (⟨4, 3⟩, some ⟨4, 3, 0x9000⟩) := by decide +kernel
  have hend : (⟨4, 3⟩ : RemotePageTableIter).next s.1 = some (⟨4, -1⟩, none) := by
    decide +kernel
  have hlater : Yields s.1 ⟨5, 1⟩ [⟨4, 3, 0x9000⟩] := .step hsecond (.done hend)
  obtain ⟨⟨r, hr, -, hall⟩, hfrom, -⟩ := iterator_yields_slots_in_order Heap.empty
    [.call (.map b 0x9000), .call (.map a 0x8000), .call (.map ⟨0x2000, by decide⟩ 0x7000),
      .overwrite ⟨0x2000, by decide⟩ 0]
  obtain rfl : some ⟨5, -1⟩ = r := Option.some.inj (hnew.symm.trans hr)
  obtain ⟨es, hes, horder⟩ := hall _ rfl
  obtain ⟨c, -, hc, es', hes', horder'⟩ := hfrom 5 ⟨a, 1, hfind⟩ 1
  refine ⟨hfind, by decide +kernel, ?_, c, hc, ?_⟩
  · rwa [(Yields.step hfirst hlater).unique hes]
  · rwa [hlater.unique hes']

end Mitosis.RemoteMapping
