import Mitosis.RemoteMapping.Mapping

/-!
# Copying a page table

`RemotePageTable::copy` copies the nodes of a table level by level.  Each copied
node is allocated before the nodes below it, and the loop over its entries then
links the copies of those in.  The copy lies in newly allocated memory, has the
shape of the original, maps every page to the same word and is well formed.
-/

namespace Mitosis.RemoteMapping

/-- Record the node above a node, and the index there. -/
def Heap.setUpper (h : Heap) (p upper : Ptr) (idx : PageTableIndex) : Heap :=
  { h with
    node := Function.update h.node p
      { h.node p with upperLevel := upper, upperLevelIndex := idx } }

namespace Heap

@[simp] theorem setUpper_next (h : Heap) (p upper : Ptr) (idx : PageTableIndex) :
    (h.setUpper p upper idx).next = h.next := rfl

theorem setUpper_node_of_ne (h : Heap) {p q : Ptr} (upper : Ptr) (idx : PageTableIndex)
    (hq : q ≠ p) : (h.setUpper p upper idx).node q = h.node q := by
  simp [setUpper, hq]

@[simp] theorem setUpper_level (h : Heap) (p upper : Ptr) (idx : PageTableIndex) :
    ((h.setUpper p upper idx).node p).level = (h.node p).level := by
  simp [setUpper]

@[simp] theorem setUpper_entries (h : Heap) (p upper : Ptr) (idx : PageTableIndex) :
    ((h.setUpper p upper idx).node p).entries = (h.node p).entries := by
  simp [setUpper]

@[simp] theorem setUpper_upperLevel (h : Heap) (p upper : Ptr) (idx : PageTableIndex) :
    ((h.setUpper p upper idx).node p).upperLevel = upper := by
  simp [setUpper]

@[simp] theorem setUpper_upperLevelIndex (h : Heap) (p upper : Ptr) (idx : PageTableIndex) :
    ((h.setUpper p upper idx).node p).upperLevelIndex = idx := by
  simp [setUpper]

end Heap

namespace PageTable

/-- The body of the loop of `deep_copy`: an entry of a level-one node is a word,
any other is a pointer to a node of the next level. -/
def copyEntry (copyLower : Heap → Ptr → Heap × Ptr) (level : PageTableLevel) (entity : Ptr)
    (h : Heap) (idx : PageTableIndex) (value : ℕ) : Heap :=
  match level with
  | .one => h.setEntry entity idx value
  | _ =>
    if value = 0 then h.setEntry entity idx 0
    else
      -- deep copy to lower levels, then update into new upper level
      let (h, copyLevel) := copyLower h value
      (h.setUpper copyLevel entity idx).setEntry entity idx copyLevel

/-- Copy a node, and the nodes below it with `copyLower`. -/
def copyNode (copyLower : Heap → Ptr → Heap × Ptr) (h : Heap) (src : Ptr) : Heap × Ptr :=
  let pt := h.node src
  let (h, entity) := h.alloc { pt with entries := fun _ => 0 }
  ((List.finRange 512).foldl
    (fun h idx => copyEntry copyLower pt.level entity h idx (pt.entries idx)) h, entity)

/-- `PageTable::deep_copy`.  The bound is the number of levels below the node; the
recursion ends at level one. -/
def deepCopy : ℕ → Heap → Ptr → Heap × Ptr
  | 0 => copyNode fun h src => (h, src)
  | bound + 1 => copyNode (deepCopy bound)

end PageTable

/-- `RemotePageTable::copy`. -/
def RemotePageTable.copy (h : Heap) (t : RemotePageTable) : Heap × RemotePageTable :=
  let (h, l4) := PageTable.deepCopy 3 h t.l4PageTable
  (h, ⟨l4, t.cnt⟩)

/-! ## Trees in the heap -/

/-- A node with `n` levels below it, all below the pointer `hi`. -/
def Tree (h : Heap) (hi : Ptr) : ℕ → Ptr → Prop
  | 0, p => p < hi ∧ (h.node p).level = levelAt 3
  | n + 1, p => p < hi ∧ (h.node p).level = levelAt (2 - n) ∧
      ∀ i, (h.node p).entries i ≠ 0 → Tree h hi n ((h.node p).entries i)

variable {h h' : Heap} {n : ℕ} {p : Ptr}

theorem Tree.congr {hi hi' : Ptr} (hle : hi ≤ hi')
    (hsame : ∀ p < hi, h'.node p = h.node p) (ht : Tree h hi n p) :
    Tree h' hi' n p := by
  induction n generalizing p with
  | zero =>
    obtain ⟨hlt, hlevel⟩ := ht
    exact ⟨hlt.trans_le hle, by rw [hsame p hlt, hlevel]⟩
  | succ n ih =>
    obtain ⟨hlt, hlevel, hentries⟩ := ht
    refine ⟨hlt.trans_le hle, by rw [hsame p hlt, hlevel], fun i hne => ?_⟩
    rw [hsame p hlt] at hne ⊢
    exact ih (hentries i hne)

theorem Linked.tree {h : Heap} {root : Ptr} (hl : Linked h root) {n k key : ℕ}
    (hk : k + n = 3) (hp : nodeAt h root k key = some p) : Tree h h.next n p := by
  induction n generalizing k key p with
  | zero =>
    obtain rfl : k = 3 := hk
    exact ⟨hl.allocated 3 key p le_rfl hp, hl.level 3 key p le_rfl hp⟩
  | succ n ih =>
    obtain rfl : k = 2 - n := by omega
    refine ⟨hl.allocated _ key p (by omega) hp, hl.level _ key p (by omega) hp,
      fun i hne => ?_⟩
    have hchild : nodeAt h root (2 - n + 1) (512 * key + i.val) =
        some ((h.node p).entries i) := by
      rw [nodeAt_child hp]
      exact lookupTable_eq_some.mpr ⟨rfl, hne⟩
    exact ih (by omega) hchild

/-- `q` in `h'` is a copy of `p` in `h` with `n` levels below it.  The copy lies
between two pointers, and each node of it before those below. -/
def Copies (h h' : Heap) (hi : Ptr) : ℕ → Ptr → Ptr → Ptr → Prop
  | 0, lo, p, q => lo ≤ q ∧ q < hi ∧ (h'.node q).level = (h.node p).level ∧
      ∀ i, (h'.node q).entries i = (h.node p).entries i
  | n + 1, lo, p, q => lo ≤ q ∧ q < hi ∧ (h'.node q).level = (h.node p).level ∧
      ∀ i, ((h.node p).entries i = 0 ∧ (h'.node q).entries i = 0) ∨
        ((h.node p).entries i ≠ 0 ∧
          (h'.node ((h'.node q).entries i)).upperLevel = q ∧
          (h'.node ((h'.node q).entries i)).upperLevelIndex = i ∧
          Copies h h' hi n (q + 1) ((h.node p).entries i) ((h'.node q).entries i))

namespace Copies

variable {h h₀ h' h'' : Heap} {lo lo' hi hi' : Ptr} {n : ℕ} {p q : Ptr}

theorem bounds (hc : Copies h h' hi n lo p q) : lo ≤ q ∧ q < hi := by
  cases n with
  | zero => exact ⟨hc.1, hc.2.1⟩
  | succ n => exact ⟨hc.1, hc.2.1⟩

theorem level (hc : Copies h h' hi n lo p q) : (h'.node q).level = (h.node p).level := by
  cases n with
  | zero => exact hc.2.2.1
  | succ n => exact hc.2.2.1

theorem mono (hle : lo' ≤ lo) (hc : Copies h h' hi n lo p q) : Copies h h' hi n lo' p q := by
  cases n with
  | zero => exact ⟨hle.trans hc.1, hc.2⟩
  | succ n => exact ⟨hle.trans hc.1, hc.2⟩

theorem congr (hle : hi ≤ hi') (hsame : ∀ r, lo ≤ r → r < hi → h''.node r = h'.node r)
    (hc : Copies h h' hi n lo p q) : Copies h h'' hi' n lo p q := by
  induction n generalizing lo p q with
  | zero =>
    obtain ⟨hlo, hhi, hrest⟩ := hc
    refine ⟨hlo, hhi.trans_le hle, ?_⟩
    rwa [hsame q hlo hhi]
  | succ n ih =>
    obtain ⟨hlo, hhi, hlevel, hentries⟩ := hc
    refine ⟨hlo, hhi.trans_le hle, ?_⟩
    rw [hsame q hlo hhi]
    refine ⟨hlevel, fun i => ?_⟩
    rcases hentries i with hzero | ⟨hne, hupper, hidx, hbelow⟩
    · exact Or.inl hzero
    · obtain ⟨hlo', hhi'⟩ := hbelow.bounds
      have hstep : lo ≤ q + 1 := Nat.le_succ_of_le hlo
      refine Or.inr ⟨hne, ?_⟩
      rw [hsame _ (hstep.trans hlo') hhi']
      exact ⟨hupper, hidx, ih (fun r hr => hsame r (hstep.trans hr)) hbelow⟩

theorem congr_source (hsame : ∀ r < hi', h₀.node r = h.node r) (ht : Tree h hi' n p)
    (hc : Copies h₀ h' hi n lo p q) : Copies h h' hi n lo p q := by
  induction n generalizing lo p q with
  | zero =>
    obtain ⟨hlo, hhi, hrest⟩ := hc
    refine ⟨hlo, hhi, ?_⟩
    rwa [← hsame p ht.1]
  | succ n ih =>
    obtain ⟨hlo, hhi, hlevel, hentries⟩ := hc
    obtain ⟨hlt, -, hbelow⟩ := ht
    refine ⟨hlo, hhi, ?_⟩
    rw [← hsame p hlt]
    refine ⟨hlevel, fun i => ?_⟩
    rcases hentries i with hzero | ⟨hne, hupper, hidx, hcopy⟩
    · exact Or.inl hzero
    · rw [hsame p hlt] at hne hcopy ⊢
      exact Or.inr ⟨hne, hupper, hidx, ih (hbelow i hne) hcopy⟩

theorem setUpper (hc : Copies h h' hi n lo p q) (upper : Ptr) (idx : PageTableIndex) :
    Copies h (h'.setUpper q upper idx) hi n lo p q := by
  cases n with
  | zero =>
    obtain ⟨hlo, hhi, hlevel, hentries⟩ := hc
    refine ⟨hlo, hhi, ?_, fun i => ?_⟩
    · rw [Heap.setUpper_level, hlevel]
    · rw [Heap.setUpper_entries, hentries]
  | succ n =>
    obtain ⟨hlo, hhi, hlevel, hentries⟩ := hc
    refine ⟨hlo, hhi, ?_, fun i => ?_⟩
    · rw [Heap.setUpper_level, hlevel]
    rw [Heap.setUpper_entries]
    rcases hentries i with hzero | ⟨hne, hupper, hidx, hbelow⟩
    · exact Or.inl hzero
    · -- the nodes below come after `q`
      have hafter : ∀ r, q + 1 ≤ r → (h'.setUpper q upper idx).node r = h'.node r :=
        fun r hr => Heap.setUpper_node_of_ne _ _ _ (Nat.lt_of_succ_le hr).ne'
      refine Or.inr ⟨hne, ?_⟩
      rw [hafter _ hbelow.bounds.1]
      exact ⟨hupper, hidx, hbelow.congr le_rfl fun r hr _ => hafter r hr⟩

end Copies

/-! ## The copy -/

/-- What copying a node and those below it does: nothing happens to the nodes that
were there. -/
structure Copied (h h' : Heap) (n : ℕ) (p q : Ptr) : Prop where
  next : h.next ≤ h'.next
  kept : ∀ r < h.next, h'.node r = h.node r
  copies : Copies h h' h'.next n h.next p q
  upperLevel : (h'.node q).upperLevel = (h.node p).upperLevel
  upperLevelIndex : (h'.node q).upperLevelIndex = (h.node p).upperLevelIndex

/-- Induction over a loop that remembers which entries were visited. -/
theorem foldl_visited {α ι : Type} {f : α → ι → α} (P : List ι → α → Prop) {a : α}
    (hnil : P [] a) (hstep : ∀ visited a i, P visited a → P (i :: visited) (f a i))
    (is : List ι) : P is.reverse (is.foldl f a) := by
  induction is using List.reverseRecOn with
  | nil => exact hnil
  | append_singleton is i ih =>
    rw [List.foldl_append, List.reverse_append]
    exact hstep _ _ i ih

/-- The entry of the copied node at the pointer `h.next`. -/
def EntryCopied (h : Heap) (p : Ptr) : ℕ → Heap → PageTableIndex → Prop
  | 0, h', i => (h'.node h.next).entries i = (h.node p).entries i
  | n + 1, h', i =>
    ((h.node p).entries i = 0 ∧ (h'.node h.next).entries i = 0) ∨
      ((h.node p).entries i ≠ 0 ∧
        (h'.node ((h'.node h.next).entries i)).upperLevel = h.next ∧
        (h'.node ((h'.node h.next).entries i)).upperLevelIndex = i ∧
        Copies h h' h'.next n (h.next + 1) ((h.node p).entries i)
          ((h'.node h.next).entries i))

/-- The copied node and the entries that the loop has visited. -/
structure Visited (h : Heap) (p : Ptr) (n : ℕ) (visited : List PageTableIndex) (h' : Heap) :
    Prop where
  next : h.next < h'.next
  kept : ∀ r < h.next, h'.node r = h.node r
  level : (h'.node h.next).level = (h.node p).level
  upperLevel : (h'.node h.next).upperLevel = (h.node p).upperLevel
  upperLevelIndex : (h'.node h.next).upperLevelIndex = (h.node p).upperLevelIndex
  entries : ∀ i ∈ visited, EntryCopied h p n h' i

section Loop

variable {h h' : Heap} {p : Ptr} {n : ℕ} {visited : List PageTableIndex}

variable {h'' : Heap}

theorem visited_alloc (h : Heap) (p : Ptr) (n : ℕ) :
    Visited h p n [] (h.alloc { h.node p with entries := fun _ => 0 }).1 where
  next := Nat.lt_succ_self _
  kept r hr := by simp [Heap.alloc, hr.ne]
  level := by simp [Heap.alloc]
  upperLevel := by simp [Heap.alloc]
  upperLevelIndex := by simp [Heap.alloc]
  entries := by simp

theorem EntryCopied.congr {i : PageTableIndex} (hnext : h'.next ≤ h''.next)
    (hentry : (h''.node h.next).entries i = (h'.node h.next).entries i)
    (hsame : ∀ r, h.next < r → r < h'.next → h''.node r = h'.node r)
    (hi : EntryCopied h p n h' i) : EntryCopied h p n h'' i := by
  cases n with
  | zero => exact hentry.trans hi
  | succ n =>
    rw [EntryCopied, hentry]
    rcases hi with hzero | ⟨hne, hupper, hidx, hcopy⟩
    · exact Or.inl hzero
    · refine Or.inr ⟨hne, ?_⟩
      rw [hsame _ hcopy.bounds.1 hcopy.bounds.2]
      exact ⟨hupper, hidx, hcopy.congr hnext hsame⟩

theorem Visited.setEntry (hv : Visited h p n visited h') (i : PageTableIndex) (w : ℕ)
    (hi : EntryCopied h p n (h'.setEntry h.next i w) i) :
    Visited h p n (i :: visited) (h'.setEntry h.next i w) where
  next := hv.next
  kept r hr := (h'.setEntry_node_of_ne i w hr.ne).trans (hv.kept r hr)
  level := by simpa using hv.level
  upperLevel := by simpa using hv.upperLevel
  upperLevelIndex := by simpa using hv.upperLevelIndex
  entries j hj := by
    by_cases hji : j = i
    · rwa [hji]
    · have hmem := (List.mem_cons.mp hj).resolve_left hji
      exact (hv.entries j hmem).congr (h'.setEntry_next h.next i w).ge
        (h'.setEntry_entries_of_ne w (Or.inr hji))
        fun r hr _ => h'.setEntry_node_of_ne i w hr.ne'

theorem Visited.frame (hv : Visited h p n visited h') (hnext : h'.next ≤ h''.next)
    (hsame : ∀ r < h'.next, h''.node r = h'.node r) : Visited h p n visited h'' where
  next := hv.next.trans_le hnext
  kept r hr := (hsame r (hr.trans hv.next)).trans (hv.kept r hr)
  level := by rw [hsame _ hv.next, hv.level]
  upperLevel := by rw [hsame _ hv.next, hv.upperLevel]
  upperLevelIndex := by rw [hsame _ hv.next, hv.upperLevelIndex]
  entries i hi := (hv.entries i hi).congr hnext (by rw [hsame _ hv.next]) fun r _ => hsame r

theorem Visited.step_zero (hv : Visited h p 0 visited h') (i : PageTableIndex) :
    Visited h p 0 (i :: visited) (h'.setEntry h.next i ((h.node p).entries i)) :=
  hv.setEntry i _ (by simp [EntryCopied])

theorem copyEntry_of_ne_one {level : PageTableLevel} (hlevel : level ≠ .one)
    (copyLower : Heap → Ptr → Heap × Ptr) (entity : Ptr) (h : Heap) (idx : PageTableIndex)
    (value : ℕ) :
    PageTable.copyEntry copyLower level entity h idx value =
      if value = 0 then h.setEntry entity idx 0
      else ((copyLower h value).1.setUpper (copyLower h value).2 entity idx).setEntry entity idx
        (copyLower h value).2 := by
  cases level with
  | one => exact absurd rfl hlevel
  | two => rfl
  | three => rfl
  | four => rfl

theorem Visited.step_succ {copyLower : Heap → Ptr → Heap × Ptr}
    (hlower : ∀ h p, Tree h h.next n p → Copied h (copyLower h p).1 n p (copyLower h p).2)
    (ht : Tree h h.next (n + 1) p) (hlevel : (h.node p).level ≠ .one)
    (hv : Visited h p (n + 1) visited h') (i : PageTableIndex) :
    Visited h p (n + 1) (i :: visited)
      (PageTable.copyEntry copyLower (h.node p).level h.next h' i ((h.node p).entries i)) := by
  rw [copyEntry_of_ne_one hlevel]
  by_cases hzero : (h.node p).entries i = 0
  · rw [if_pos hzero]
    exact hv.setEntry i 0 (Or.inl ⟨hzero, by simp⟩)
  rw [if_neg hzero]
  have hbelow := ht.2.2 i hzero
  have hc := hlower h' _ (hbelow.congr hv.next.le hv.kept)
  set h₁ := (copyLower h' ((h.node p).entries i)).1
  set c := (copyLower h' ((h.node p).entries i)).2
  have hnew : h.next < c := hv.next.trans_le hc.copies.bounds.1
  have hframe : Visited h p (n + 1) visited (h₁.setUpper c h.next i) := by
    refine hv.frame hc.next fun r hr => ?_
    rw [h₁.setUpper_node_of_ne h.next i (hr.trans_le hc.copies.bounds.1).ne, hc.kept r hr]
  refine hframe.setEntry i c (Or.inr ⟨hzero, ?_⟩)
  have hentry : (((h₁.setUpper c h.next i).setEntry h.next i c).node h.next).entries i = c := by
    simp
  have hnode : ∀ r, h.next < r → ((h₁.setUpper c h.next i).setEntry h.next i c).node r =
      (h₁.setUpper c h.next i).node r := fun r hr => Heap.setEntry_node_of_ne _ i c hr.ne'
  rw [hentry, hnode c hnew]
  refine ⟨by simp, by simp, ?_⟩
  -- the copy was made in `h'`, where the nodes to copy are those of `h`
  have hsource := (hc.copies.congr_source hv.kept hbelow).setUpper h.next i
  have hle : h₁.next ≤ ((h₁.setUpper c h.next i).setEntry h.next i c).next := le_rfl
  exact (hsource.congr hle fun r hr _ => hnode r (hv.next.trans_le hr)).mono hv.next

end Loop

theorem visited_copyNode {h : Heap} {copyLower : Heap → Ptr → Heap × Ptr}
    (hstep : ∀ visited h' i, Visited h p n visited h' → Visited h p n (i :: visited)
      (PageTable.copyEntry copyLower (h.node p).level h.next h' i ((h.node p).entries i))) :
    Visited h p n (List.finRange 512).reverse (PageTable.copyNode copyLower h p).1 := by
  unfold PageTable.copyNode
  generalize List.finRange 512 = is
  exact foldl_visited (Visited h p n) (visited_alloc h p n) hstep is

theorem copied_of_visited
    (hv : Visited h p n (List.finRange 512).reverse h') : Copied h h' n p h.next := by
  have hall : ∀ i, EntryCopied h p n h' i :=
    fun i => hv.entries i (List.mem_reverse.mpr (List.mem_finRange i))
  refine ⟨hv.next.le, hv.kept, ?_, hv.upperLevel, hv.upperLevelIndex⟩
  cases n with
  | zero => exact ⟨le_rfl, hv.next, hv.level, hall⟩
  | succ n => exact ⟨le_rfl, hv.next, hv.level, hall⟩

/-- A copy of a whole tree. -/
theorem deepCopy_spec (hn : n ≤ 3) {h : Heap} (ht : Tree h h.next n p) :
    Copied h (PageTable.deepCopy n h p).1 n p (PageTable.deepCopy n h p).2 := by
  induction n generalizing h p with
  | zero =>
    refine copied_of_visited (visited_copyNode fun visited h' i hv => ?_)
    rw [ht.2]
    exact hv.step_zero i
  | succ n ih =>
    have hlevel : (h.node p).level ≠ .one := by
      rw [ht.2.1]
      have : n ≤ 2 := by omega
      interval_cases n <;> simp [levelAt]
    exact copied_of_visited (visited_copyNode fun visited h' i hv =>
      hv.step_succ (fun h p => ih (by omega)) ht hlevel i)

/-! ## The copied table -/

section Table

variable {h h' : Heap} {hi lo : Ptr} {n : ℕ} {p q : Ptr}

variable {k : ℕ}

theorem Copies.same_address (hc : Copies h h' hi n lo p q) (hk : k ≤ n) (key : ℕ) :
    (nodeAt h p k key = none ∧ nodeAt h' q k key = none) ∨
      ∃ r r', nodeAt h p k key = some r ∧ nodeAt h' q k key = some r' ∧
        Copies h h' hi (n - k) lo r r' := by
  induction k generalizing key with
  | zero =>
    by_cases hkey : key = 0
    · exact Or.inr ⟨p, q, if_pos hkey, if_pos hkey, hc⟩
    · exact Or.inl ⟨if_neg hkey, if_neg hkey⟩
  | succ k ih =>
    rw [nodeAt_succ, nodeAt_succ]
    rcases ih (by omega) (key / 512) with ⟨hr, hr'⟩ | ⟨r, r', hr, hr', hcopy⟩
    · rw [hr, hr']
      exact Or.inl ⟨rfl, rfl⟩
    · rw [hr, hr', Option.bind_some, Option.bind_some]
      obtain ⟨m, hm⟩ : ∃ m, n - k = m + 1 := ⟨n - k - 1, by omega⟩
      rw [hm] at hcopy
      have hlo := hcopy.1
      rcases hcopy.2.2.2 (.newTruncate key) with ⟨hzero, hzero'⟩ | ⟨hne, -, -, hbelow⟩
      · exact Or.inl ⟨lookupTable_eq_none.mpr hzero, lookupTable_eq_none.mpr hzero'⟩
      · have hb := hbelow.bounds.1
        refine Or.inr ⟨_, _, lookupTable_eq_some.mpr ⟨rfl, hne⟩,
          lookupTable_eq_some.mpr ⟨rfl, (Nat.zero_lt_succ _).trans_le hb |>.ne'⟩, ?_⟩
        rw [show n - (k + 1) = m by omega]
        exact hbelow.mono (Nat.le_succ_of_le hlo)

theorem Copies.words (hc : Copies h h' hi n lo p q) (key : ℕ) :
    nodeAt h' q (n + 1) key = nodeAt h p (n + 1) key := by
  rw [nodeAt_succ, nodeAt_succ]
  rcases hc.same_address le_rfl (key / 512) with ⟨hr, hr'⟩ | ⟨r, r', hr, hr', hcopy⟩
  · rw [hr, hr']
    rfl
  · rw [Nat.sub_self] at hcopy
    rw [hr, hr', Option.bind_some, Option.bind_some, lookupTable, lookupTable,
      hcopy.2.2.2]

theorem Copies.inhabited (hc : Copies h h' hi n lo p q) (hk : k < n)
    (hinhabited : Inhabited h p k) : Inhabited h' q k := by
  intro key r' hr'
  rcases hc.same_address hk.le key with ⟨-, hnone⟩ | ⟨r, r'', hr, hr'', hcopy⟩
  · rw [hnone] at hr'
    cases hr'
  · obtain rfl : r'' = r' := Option.some.inj (hr''.symm.trans hr')
    obtain ⟨i, hne⟩ := hinhabited key r hr
    obtain ⟨m, hm⟩ : ∃ m, n - k = m + 1 := ⟨n - k - 1, by omega⟩
    rw [hm] at hcopy
    refine ⟨i, ?_⟩
    rcases hcopy.2.2.2 i with ⟨hzero, -⟩ | ⟨-, -, -, hbelow⟩
    · exact absurd hzero hne
    · exact ((Nat.zero_lt_succ _).trans_le hbelow.bounds.1).ne'

theorem Copied.linked (hl : Linked h p) (hc : Copied h h' 3 p q) : Linked h' q := by
  have hat : ∀ {k key r'}, k ≤ 3 → nodeAt h' q k key = some r' →
      ∃ r, nodeAt h p k key = some r ∧ Copies h h' h'.next (3 - k) h.next r r' := by
    intro k key r' hk hr'
    rcases hc.copies.same_address hk key with ⟨-, hnone⟩ | ⟨r, r'', hr, hr'', hcopy⟩
    · rw [hnone] at hr'
      cases hr'
    · obtain rfl : r'' = r' := Option.some.inj (hr''.symm.trans hr')
      exact ⟨r, hr, hcopy⟩
  constructor
  case root_ne => exact (h.next_pos.trans_le hc.copies.bounds.1).ne'
  case rootUpper => rw [hc.upperLevel, hl.rootUpper]
  case allocated =>
    intro k key r' hk hr'
    obtain ⟨r, -, hcopy⟩ := hat hk hr'
    exact hcopy.bounds.2
  case level =>
    intro k key r' hk hr'
    obtain ⟨r, hr, hcopy⟩ := hat hk hr'
    rw [hcopy.level, hl.level k key r hk hr]
  case upper =>
    intro k key r' c' hk hr' hc'
    obtain ⟨r, hr, hcopy⟩ := hat hk.le hr'
    obtain ⟨m, hm⟩ : ∃ m, 3 - k = m + 1 := ⟨2 - k, by omega⟩
    rw [hm] at hcopy
    rw [nodeAt_succ, hr', Option.bind_some, lookupTable_eq_some] at hc'
    obtain ⟨rfl, hne⟩ := hc'
    rcases hcopy.2.2.2 (.newTruncate key) with ⟨-, hzero⟩ | ⟨-, hupper, hidx, -⟩
    · exact absurd hzero hne
    · exact ⟨hupper, hidx⟩

end Table

variable {t : RemotePageTable}

theorem copied_copy {h : Heap} (hl : Linked h t.l4PageTable) :
    Copied h (t.copy h).1 3 t.l4PageTable (t.copy h).2.l4PageTable := by
  have hroot : nodeAt h t.l4PageTable 0 0 = some t.l4PageTable := rfl
  exact deepCopy_spec le_rfl (hl.tree (Nat.zero_add 3) hroot)

/-- The copy of a well-formed table is well formed and maps what the table maps. -/
theorem copy_spec {h : Heap} (hw : WellFormed h t.l4PageTable) :
    WellFormed (t.copy h).1 (t.copy h).2.l4PageTable ∧
      ∀ key, nodeAt (t.copy h).1 (t.copy h).2.l4PageTable 4 key =
        nodeAt h t.l4PageTable 4 key := by
  have hc := copied_copy hw.toLinked
  exact ⟨⟨hc.linked hw.toLinked, hc.copies.inhabited (by omega) hw.inhabitedOne,
    hc.copies.inhabited (by omega) hw.inhabitedTwo⟩, hc.copies.words⟩

theorem translate_copy {h : Heap} (hw : WellFormed h t.l4PageTable)
    (a : VirtAddr) : (t.copy h).2.translate (t.copy h).1 a = t.translate h a := by
  rw [translate_eq, translate_eq, (copy_spec hw).2]

end Mitosis.RemoteMapping
