import Mathlib.Algebra.BigOperators.Fin
import Mathlib.Algebra.Order.Group.Multiset
import Mitosis.Prefetcher.Drop
import Mitosis.Prefetcher.Slots
import Mitosis.Support.Outcome

/-!
# The local pages of a table

Dropping a table frees the local pages in its slots, as often as they occur there.  The
pages of a table are a multiset, which a write to a slot changes by the pages of the old
and the new word.
-/

namespace Mitosis.Prefetcher

open Mitosis.RemoteMapping
open Mitosis.Support (Outcome)

def heldPages : Option PhysAddr → Multiset ℕ
  | none => 0
  | some w => if w ≠ kMagicInPrefetch ∧ PhysAddr.isPrefetch w = true then {PhysAddr.decode w} else 0

variable {w : PhysAddr}

@[simp] theorem heldPages_none : heldPages none = 0 := rfl

@[simp] theorem heldPages_mark : heldPages (some kMagicInPrefetch) = 0 := by
  simp [heldPages]

theorem heldPages_of_not_isPrefetch (h : PhysAddr.isPrefetch w = false) :
    heldPages (some w) = 0 := by
  simp [heldPages, h]

theorem heldPages_of_ne_mark (h : PhysAddr.isPrefetch w = true)
    (hne : w ≠ kMagicInPrefetch) : heldPages (some w) = {PhysAddr.decode w} := by
  simp [heldPages, h, hne]

theorem heldPages_localWord {page : ℕ} (h : ValidPage page) :
    heldPages (some (localWord page)) = {page} := by
  rw [heldPages_of_ne_mark h.bottomBit_localWord h.localWord_ne_magic, h.decode_localWord]

/-- The pages of the slots below a key, `j` levels further down. -/
def pagesBelow (word : ℕ → Option PhysAddr) : ℕ → ℕ → Multiset ℕ
  | 0, key => heldPages (word key)
  | j + 1, key => ∑ i : PageTableIndex, pagesBelow word j (512 * key + i.val)

/-- The pages of a table.  The sum is over all slots and is not to be unfolded. -/
@[irreducible]
def tablePages (h : Heap) (root : Ptr) : Multiset ℕ := pagesBelow (nodeAt h root 4) 4 0

section Words

variable {word : ℕ → Option PhysAddr} {j key k : ℕ}

theorem pagesBelow_eq_zero (h : ∀ slot, slot / 512 ^ j = key → heldPages (word slot) = 0) :
    pagesBelow word j key = 0 := by
  induction j generalizing key with
  | zero => exact h key (by simp)
  | succ j ih =>
    refine Finset.sum_eq_zero fun i _ => ih fun slot hslot => h slot ?_
    rw [pow_succ, ← Nat.div_div_eq_div_mul, hslot, child_div]

theorem pagesBelow_update_of_ne (o : Option PhysAddr) (hk : k / 512 ^ j ≠ key) :
    pagesBelow (Function.update word k o) j key = pagesBelow word j key := by
  induction j generalizing key with
  | zero =>
    have hne : key ≠ k := by
      rintro rfl
      simp at hk
    rw [pagesBelow, pagesBelow, Function.update_of_ne hne]
  | succ j ih =>
    refine Finset.sum_congr rfl fun i _ => ih fun heq => hk ?_
    rw [pow_succ, ← Nat.div_div_eq_div_mul, heq, child_div]

theorem pagesBelow_update (o : Option PhysAddr) (hk : k / 512 ^ j = key) :
    pagesBelow (Function.update word k o) j key + heldPages (word k) =
      pagesBelow word j key + heldPages o := by
  induction j generalizing key with
  | zero =>
    obtain rfl : k = key := by simpa using hk
    rw [pagesBelow, pagesBelow, Function.update_self, add_comm]
  | succ j ih =>
    rw [pow_succ, ← Nat.div_div_eq_div_mul] at hk
    -- the slot lies below one entry, and the others stay
    let i : PageTableIndex := .newTruncate (k / 512 ^ j)
    have hi : k / 512 ^ j = 512 * key + i.val := child_eq_iff.mpr ⟨hk, rfl⟩
    have hrest : ∑ i' ∈ Finset.univ.erase i,
          pagesBelow (Function.update word k o) j (512 * key + i'.val) =
        ∑ i' ∈ Finset.univ.erase i, pagesBelow word j (512 * key + i'.val) := by
      refine Finset.sum_congr rfl fun i' hi' => pagesBelow_update_of_ne o ?_
      rw [hi]
      intro heq
      exact Finset.ne_of_mem_erase hi' (Fin.ext (by omega))
    rw [pagesBelow, pagesBelow, ← Finset.sum_erase_add _ _ (Finset.mem_univ i),
      ← Finset.sum_erase_add _ _ (Finset.mem_univ i), hrest, add_assoc, add_assoc, ih hi]

end Words

/-! ## Dropping a table -/

variable {freed : List ℕ} {h : Heap}

variable {f : PageTableIndex → Except Halt (List ℕ)} {is : List PageTableIndex}
  {i : PageTableIndex} {root p : Ptr} {t : RemotePageTable}

theorem coe_dropAll {g : PageTableIndex → Multiset ℕ}
    (hf : ∀ i freed, f i = .ok freed → (freed : Multiset ℕ) = g i)
    (h : dropAll f is = .ok freed) :
    (freed : Multiset ℕ) = (is.map g).sum := by
  induction is generalizing freed with
  | nil =>
    cases h
    rfl
  | cons i is ih =>
    obtain ⟨first, hi, h⟩ := Outcome.bind_eq_ok.mp h
    obtain ⟨rest, his, h⟩ := Outcome.bind_eq_ok.mp h
    cases h
    rw [← Multiset.coe_add, hf i first hi, ih his, List.map_cons, List.sum_cons]

theorem coe_dropEntry {p : Ptr}
    (hdrop : dropEntry ((h.node p).entries i) = .ok freed) :
    (freed : Multiset ℕ) = heldPages (lookupTable h i p) := by
  unfold dropEntry at hdrop
  by_cases hzero : (h.node p).entries i = 0
  · rw [lookupTable_eq_none.mpr hzero]
    rw [if_neg (not_not.mpr hzero)] at hdrop
    cases hdrop
    rfl
  rw [lookupTable_eq_some.mpr ⟨rfl, hzero⟩]
  rw [if_pos hzero] at hdrop
  split at hdrop
  · cases hdrop
  · next hne =>
      split at hdrop
      · next hbit =>
          cases hdrop
          rw [heldPages_of_ne_mark hbit hne]
          rfl
      · next hbit =>
          cases hdrop
          rw [heldPages_of_not_isPrefetch (Bool.eq_false_iff.mpr hbit)]
          rfl

theorem coe_dropNode {j k key : ℕ}
    (hl : Linked h root) (hk : k + j = 3) (hp : nodeAt h root k key = some p)
    (hdrop : dropNode h (j + 1) p = .ok freed) :
    (freed : Multiset ℕ) = pagesBelow (nodeAt h root 4) (j + 1) key := by
  induction j generalizing k key p freed with
  | zero =>
    obtain rfl : k = 3 := hk
    rw [dropNode, hl.level 3 key p le_rfl hp] at hdrop
    rw [pagesBelow, Fin.sum_univ_def]
    refine coe_dropAll (fun i freed hi => ?_) hdrop
    rw [pagesBelow, nodeAt_child hp i]
    exact coe_dropEntry hi
  | succ j ih =>
    rw [dropNode, hl.level k key p (by omega) hp, levelAt_nextLowerLevel (by omega)] at hdrop
    rw [pagesBelow, Fin.sum_univ_def]
    refine coe_dropAll (fun i freed hi => ?_) hdrop
    have hchild := nodeAt_child hp i
    by_cases hzero : (h.node p).entries i = 0
    · rw [lookupTable_eq_none.mpr hzero] at hchild
      rw [if_neg (not_not.mpr hzero)] at hi
      cases hi
      refine (pagesBelow_eq_zero fun slot hslot => ?_).symm
      cases hword : nodeAt h root 4 slot with
      | none => rfl
      | some w =>
        have hpresent := present_above (j := j + 1) (k := k + 1) (by omega) ⟨w, hword⟩
        rw [hslot] at hpresent
        obtain ⟨q, hq⟩ := hpresent
        rw [hchild] at hq
        cases hq
    · rw [lookupTable_eq_some.mpr ⟨rfl, hzero⟩] at hchild
      rw [if_pos hzero] at hi
      exact ih (by omega) hchild hi

theorem coe_dropTable (hl : Linked h t.l4PageTable) (hdrop : dropTable h t = .ok freed) :
    (freed : Multiset ℕ) = tablePages h t.l4PageTable := by
  unfold tablePages
  exact coe_dropNode (k := 0) hl rfl rfl hdrop

theorem exists_of_dropAll (h : dropAll f is = .ok freed) (hi : i ∈ is) :
    ∃ part, f i = .ok part ∧ part ⊆ freed := by
  induction is generalizing freed with
  | nil => cases hi
  | cons i' is ih =>
    obtain ⟨first, hfirst, h⟩ := Outcome.bind_eq_ok.mp h
    obtain ⟨rest, hrest, h⟩ := Outcome.bind_eq_ok.mp h
    cases h
    rcases List.mem_cons.mp hi with rfl | hi
    · exact ⟨first, hfirst, List.subset_append_left first rest⟩
    · obtain ⟨part, hpart, hsub⟩ := ih hrest hi
      exact ⟨part, hpart, List.subset_append_of_subset_right first hsub⟩

theorem mem_dropEntry (hdrop : dropEntry w = .ok freed)
    (hzero : w ≠ 0) (hbit : PhysAddr.isPrefetch w = true) : PhysAddr.decode w ∈ freed := by
  unfold dropEntry at hdrop
  rw [if_pos hzero] at hdrop
  split at hdrop
  · cases hdrop
  · cases hdrop
    exact List.mem_singleton_self _

theorem mem_dropNode {j k slot : ℕ}
    (hl : Linked h root) (hk : k + j = 3) (hp : nodeAt h root k (slot / 512 ^ (j + 1)) = some p)
    (hdrop : dropNode h (j + 1) p = .ok freed) (hword : nodeAt h root 4 slot = some w)
    (hbit : PhysAddr.isPrefetch w = true) : PhysAddr.decode w ∈ freed := by
  induction j generalizing k p freed with
  | zero =>
    obtain rfl : k = 3 := hk
    rw [dropNode, hl.level 3 _ p le_rfl hp] at hdrop
    obtain ⟨q, hq, rfl, hzero⟩ := nodeAt_succ_eq_some.mp hword
    cases hp.symm.trans hq
    obtain ⟨part, hpart, hsub⟩ := exists_of_dropAll hdrop (List.mem_finRange _)
    exact hsub (mem_dropEntry hpart hzero hbit)
  | succ j ih =>
    rw [dropNode, hl.level k _ p (by omega) hp, levelAt_nextLowerLevel (by omega)] at hdrop
    -- the slot lies below the entry of its key on the next level
    have hpresent := present_above (j := j + 1) (k := k + 1) (by omega) ⟨w, hword⟩
    obtain ⟨q, hq⟩ := hpresent
    obtain ⟨p', hp', rfl, hzero⟩ := nodeAt_succ_eq_some.mp hq
    rw [Nat.div_div_eq_div_mul, ← pow_succ] at hp'
    cases hp.symm.trans hp'
    obtain ⟨part, hpart, hsub⟩ := exists_of_dropAll hdrop (List.mem_finRange _)
    rw [if_pos hzero] at hpart
    exact hsub (ih (by omega) hq hpart)

/-- A table whose drop finds nothing to free has neither a page that was read ahead nor
the mark of a READ under way. -/
theorem isPrefetch_of_dropTable {k : ℕ}
    (hl : Linked h t.l4PageTable) (hdrop : dropTable h t = .ok [])
    (hword : nodeAt h t.l4PageTable 4 k = some w) : PhysAddr.isPrefetch w = false := by
  by_contra hbit
  have hroot : k / 512 ^ 4 = 0 := Nat.div_eq_of_lt (nodeAt_lt hword)
  have hmem := mem_dropNode (k := 0) (j := 3) hl rfl (by rw [hroot]; rfl) hdrop hword
    (by simpa using hbit)
  cases hmem

end Mitosis.Prefetcher
