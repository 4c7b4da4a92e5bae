import Mathlib.Algebra.BigOperators.Ring.List
import Mathlib.Algebra.Order.BigOperators.Group.List
import Mathlib.Algebra.Order.Ring.Nat
import Mathlib.Data.Finmap
import Mathlib.Data.List.AList

/-!
# Maps that change at one key

Handlers, registered processes, replies and cached tables are kept by key.  A step
inserts or erases at one key; the lemmas say what is found afterwards, and that the
entries of a map are the entry at a key with those that are left when it is erased.
A quantity that is summed over the entries (`tally`, and `total` where it is not a
number) changes by that of one entry.
-/

namespace Mitosis.Support

variable {α β : Type*}

/-- The sum of a quantity over the entries of a map. -/
def tally (f : β → ℕ) (m : AList fun _ : α => β) : ℕ := (m.entries.map fun e => f e.2).sum

theorem tally_add (f g : β → ℕ) (m : AList fun _ : α => β) :
    tally (fun x => f x + g x) m = tally f m + tally g m :=
  List.sum_map_add

theorem tally_mul (c : ℕ) (f : β → ℕ) (m : AList fun _ : α => β) :
    tally (fun x => c * f x) m = c * tally f m :=
  List.sum_map_mul_left _ _ _

theorem tally_const (c : ℕ) (m : AList fun _ : α => β) :
    tally (fun _ => c) m = m.keys.length * c := by
  simp [tally, AList.keys, List.keys]

variable [DecidableEq α] {m : AList fun _ : α => β} {k h : α} {v x : β}

theorem lookup_insert_eq (m : AList fun _ : α => β) (k : α) (v : β) (h : α) :
    (m.insert k v).lookup h = if h = k then some v else m.lookup h := by
  by_cases hh : h = k
  · subst hh
    rw [if_pos rfl, AList.lookup_insert]
  · rw [if_neg hh, AList.lookup_insert_ne hh]

theorem lookup_erase_eq (m : AList fun _ : α => β) (k h : α) :
    (m.erase k).lookup h = if h = k then none else m.lookup h := by
  by_cases hh : h = k
  · rw [if_pos hh, hh, AList.lookup_erase]
  · rw [if_neg hh, AList.lookup_erase_ne hh]

theorem lookup_insert_cases (hx : (m.insert k v).lookup h = some x) :
    (h = k ∧ v = x) ∨ m.lookup h = some x := by
  rw [lookup_insert_eq] at hx
  split at hx
  · next hh => exact Or.inl ⟨hh, Option.some.inj hx⟩
  · exact Or.inr hx

theorem lookup_of_erase (hx : (m.erase k).lookup h = some x) : m.lookup h = some x := by
  rw [lookup_erase_eq] at hx
  split at hx
  · cases hx
  · exact hx

theorem mem_of_lookup (hx : m.lookup k = some x) : k ∈ m := by
  rw [← AList.lookup_isSome, hx]
  rfl

theorem mem_insert_of_mem (hk : k ∈ m) (v : β) (h : α) : h ∈ m.insert k v ↔ h ∈ m := by
  rw [AList.mem_insert, or_iff_right_iff_imp]
  rintro rfl
  exact hk

theorem erase_of_notMem (hk : k ∉ m) : m.erase k = m := by
  apply AList.ext
  exact List.kerase_of_notMem_keys hk

theorem entries_perm_of_lookup (hx : m.lookup k = some x) :
    m.entries.Perm (⟨k, x⟩ :: (m.erase k).entries) := by
  obtain ⟨y, l₁, l₂, -, hentries, herase⟩ := List.exists_of_kerase (mem_of_lookup hx)
  have hy : m.lookup k = some y := by
    rw [AList.mem_lookup_iff.mpr]
    rw [hentries]
    simp
  obtain rfl : y = x := Option.some.inj (hy.symm.trans hx)
  have hrest : (m.erase k).entries = l₁ ++ l₂ := herase
  rw [hrest, hentries]
  exact List.perm_middle

theorem tally_insert_of_notMem (f : β → ℕ) (hk : k ∉ m) (v : β) :
    tally f (m.insert k v) = tally f m + f v := by
  rw [tally, AList.entries_insert_of_notMem hk, List.map_cons, List.sum_cons, Nat.add_comm]
  rfl

theorem tally_of_lookup (f : β → ℕ) (hx : m.lookup k = some x) :
    tally f m = f x + tally f (m.erase k) := by
  rw [tally, ((entries_perm_of_lookup hx).map _).sum_nat, List.map_cons, List.sum_cons]
  rfl

theorem le_tally_of_lookup (f : β → ℕ) (hx : m.lookup k = some x) : f x ≤ tally f m := by
  rw [tally_of_lookup f hx]
  exact Nat.le_add_right _ _

theorem tally_insert_of_lookup (f : β → ℕ) (hx : m.lookup k = some x) (v : β) :
    tally f (m.insert k v) + f x = tally f m + f v := by
  have hinsert : tally f (m.insert k v) = f v + tally f (m.erase k) := by
    rw [tally, AList.entries_insert, List.map_cons, List.sum_cons]
    rfl
  rw [tally_of_lookup f hx, hinsert]
  ac_rfl

theorem tally_mono {f g : β → ℕ} (h : ∀ k x, m.lookup k = some x → f x ≤ g x) :
    tally f m ≤ tally g m := by
  apply List.sum_le_sum
  intro entry hentry
  exact h entry.1 entry.2 (AList.mem_lookup_iff.mpr hentry)

theorem tally_eq_zero {f : β → ℕ} (h : ∀ k x, m.lookup k = some x → f x = 0) :
    tally f m = 0 := by
  have hle : tally f m ≤ tally (fun _ => 0) m := tally_mono fun k x hx => (h k x hx).le
  rw [tally_const, Nat.mul_zero] at hle
  exact Nat.le_zero.mp hle

theorem tally_add_le_of_lookup {f g : β → ℕ} (h : ∀ x, f x ≤ g x) (hx : m.lookup k = some x)
    {d : ℕ} (hd : f x + d ≤ g x) : tally f m + d ≤ tally g m := by
  have hrest : tally f (m.erase k) ≤ tally g (m.erase k) := tally_mono fun _ x _ => h x
  rw [tally_of_lookup f hx, tally_of_lookup g hx]
  omega

theorem length_keys_insert_of_lookup (hx : m.lookup k = some x) (v : β) :
    (m.insert k v).keys.length = m.keys.length := by
  have h := tally_insert_of_lookup (fun _ => 1) hx v
  rw [tally_const, tally_const] at h
  omega

theorem length_keys_insert_of_notMem (hk : k ∉ m) (v : β) :
    (m.insert k v).keys.length = m.keys.length + 1 := by
  have h := tally_insert_of_notMem (fun _ => 1) hk v
  rw [tally_const, tally_const] at h
  omega

/-! ## Sums that are not numbers -/

section Total

variable {M : Type*} [AddCommMonoid M]

def total (f : β → M) (m : AList fun _ : α => β) : M := (m.entries.map fun e => f e.2).sum

theorem total_insert (f : β → M) (m : AList fun _ : α => β) (k : α) (v : β) :
    total f (m.insert k v) = f v + total f (m.erase k) := by
  rw [total, AList.entries_insert, List.map_cons, List.sum_cons]
  rfl

theorem total_of_lookup (f : β → M) (hx : m.lookup k = some x) :
    total f m = f x + total f (m.erase k) := by
  rw [total, ((entries_perm_of_lookup hx).map _).sum_eq, List.map_cons, List.sum_cons]
  rfl

end Total

omit [DecidableEq α] in
theorem count_total {γ : Type*} [DecidableEq γ] (f : β → Multiset γ)
    (m : AList fun _ : α => β) (c : γ) :
    (total f m).count c = tally (fun x => (f x).count c) m := by
  rw [total, tally, ← Multiset.coe_countAddMonoidHom, map_list_sum, List.map_map]
  rfl

/-! ## Maps built by insertion -/

theorem lookup_foldl_insert {es : List (Σ _ : α, β)} (hes : es.NodupKeys)
    (acc : Finmap fun _ : α => β) (k : α) :
    (es.foldl (fun acc e => acc.insert e.1 e.2) acc).lookup k =
      (es.dlookup k).or (acc.lookup k) := by
  induction es generalizing acc with
  | nil => rfl
  | cons e es ih =>
    rw [List.nodupKeys_cons] at hes
    rw [List.foldl_cons, ih hes.2]
    by_cases hk : k = e.1
    · -- The key of an entry does not occur again.
      subst hk
      rw [List.dlookup_eq_none.mpr hes.1, Finmap.lookup_insert, List.dlookup_cons_eq]
      rfl
    · rw [Finmap.lookup_insert_of_ne _ hk, List.dlookup_cons_ne _ _ hk]

/-- A map is built again from its entries, in whatever order they come. -/
theorem foldl_insert_entries (m : AList fun _ : α => β) :
    m.entries.foldl (fun acc e => acc.insert e.1 e.2) (∅ : Finmap fun _ : α => β) =
      m.toFinmap := by
  refine Finmap.ext_lookup fun k => ?_
  rw [lookup_foldl_insert m.nodupKeys, Finmap.lookup_empty, Option.or_none,
    Finmap.lookup_toFinmap, AList.lookup]

end Mitosis.Support
