import Mitosis.Descriptors.Parent
import Mitosis.RemoteMapping.PhysAddr

/-!
# The shadow process

Preparing a process for remote fork walks its memory areas and records each
present page in the compact table of its area.  In copy-on-write mode the word
recorded is the physical address of the page itself, marked read-only when the
page is not writable; in copy mode it is the address of a fresh copy.
-/

namespace Mitosis.Shadow

open Support Descriptors RemoteMapping

/-- One visit of the page walk: the address of a page and its page-table
entry. -/
structure PteEntry where
  addr : ℕ
  pte : ℕ
deriving DecidableEq

/-- A memory area of the parent and the entries the page walk visits in it.
Areas and pages are 4 KiB aligned, an area lies in the user half of the address
space, and no page is visited twice. -/
structure Area where
  vma : VMADescriptor
  ptes : List PteEntry
  startAligned : vma.getStart.toNat % 4096 = 0
  endAligned : vma.getEnd.toNat % 4096 = 0
  user : vma.getEnd.toNat ≤ 2 ^ 47
  inside : ∀ p ∈ ptes, vma.getStart.toNat ≤ p.addr ∧
    p.addr < vma.getEnd.toNat ∧ p.addr % 4096 = 0
  distinct : (ptes.map PteEntry.addr).Nodup

def Area.start (a : Area) : ℕ := a.vma.getStart.toNat

/-- The address space of the parent: its areas are sorted and do not
overlap. -/
structure AddressSpace where
  areas : List Area
  sorted : areas.Pairwise fun a b =>
    a.vma.getEnd.toNat ≤ b.vma.getStart.toNat

/-- A process without memory areas. -/
def AddressSpace.empty : AddressSpace := ⟨[], List.Pairwise.nil⟩

/-! ## Page-table entries of the kernel -/

/-- `pmem_get_phy_from_pte`: the bits 12 to 51 of an entry. -/
def pmemGetPhyFromPte (pte : ℕ) : ℕ :=
  pte &&& (2 ^ 64 - 4096) &&& (2 ^ 52 - 1)

def pmemClearPteWrite (pte : ℕ) : ℕ := pte &&& (2 ^ 64 - 1 - 2)

def pmemCheckPteWrite (pte : ℕ) : ℕ := pte &&& 2

/-- A page is present when the walk finds a physical address for it. -/
def PteEntry.present (p : PteEntry) : Bool := 0 < pmemGetPhyFromPte p.pte

/-- `VM_WRITE` or `VM_MAYWRITE` is set. -/
def hasWritePermission (v : VMADescriptor) : Bool :=
  v.flags &&& 0x2 != 0 || v.flags &&& 0x20 != 0

theorem pmemGetPhyFromPte_mod (pte : ℕ) :
    pmemGetPhyFromPte pte % 4096 = 0 := by
  have hmod : pmemGetPhyFromPte pte % 2 ^ 12 = 0 := by
    rw [pmemGetPhyFromPte, Nat.and_mod_two_pow, Nat.and_mod_two_pow]
    simp
  exact hmod

theorem pmemGetPhyFromPte_lt (pte : ℕ) : pmemGetPhyFromPte pte < 2 ^ 52 :=
  lt_of_le_of_lt Nat.and_le_right (by norm_num)

/-! ## The walk -/

/-- What the walk of one area fills in: the pages held by the shadow process,
by their physical addresses, and the compact table. -/
structure Generated where
  inner : List ℕ
  innerFlat : CompactPageTable

/-- `addr - start`, narrowed to the 32 bits of an offset. -/
def Area.offset (a : Area) (p : PteEntry) : UInt32 := .ofNat (p.addr - a.start)

/-- The word recorded for a page in copy-on-write mode.  The write bit is
cleared first in areas that may be written. -/
def cowWord (a : Area) (p : PteEntry) : ℕ :=
  let phyAddr := pmemGetPhyFromPte p.pte
  let pte :=
    if hasWritePermission a.vma then pmemClearPteWrite p.pte else p.pte
  if pmemCheckPteWrite pte = 0 then
    PhysAddr.encode phyAddr PhysAddrBitFlag.readOnly.bits
  else
    phyAddr

/-- `VMACOWPTGenerator::handle_pte_entry`. -/
def cowHandlePteEntry (a : Area) (g : Generated) (p : PteEntry) : Generated :=
  let phyAddr := pmemGetPhyFromPte p.pte
  if phyAddr > 0 then
    let inner :=
      if hasWritePermission a.vma then g.inner ++ [phyAddr] else g.inner
    ⟨inner, g.innerFlat.addOne (a.offset p) (.ofNat (cowWord a p))⟩
  else
    g

/-- `VMACopyPTGenerator::handle_pte_entry`.  `alloc` gives the physical address
of the copy of a page, or none when no page can be allocated. -/
def copyHandlePteEntry (alloc : ℕ → Option ℕ) (a : Area) (g : Generated)
    (p : PteEntry) : Outcome Generated :=
  if pmemGetPhyFromPte p.pte > 0 then do
    let copied ← Outcome.unwrap (alloc p.addr)
    .ok ⟨g.inner ++ [copied],
      g.innerFlat.addOne (a.offset p) (.ofNat copied)⟩
  else
    .ok g

/-- The shadow process: the descriptor and the pages it holds. -/
structure ShadowProcess where
  descriptor : ParentDescriptor
  shadowPagetable : List ℕ

/-- The walks of all areas, which share the table of held pages. -/
def cowGenerate : List Area → List ℕ → List CompactPageTable × List ℕ
  | [], inner => ([], inner)
  | a :: as, inner =>
    let g := a.ptes.foldl (cowHandlePteEntry a) ⟨inner, .default⟩
    let (tables, inner) := cowGenerate as g.inner
    (g.innerFlat :: tables, inner)

def copyWalk (alloc : ℕ → Option ℕ) (a : Area) :
    List PteEntry → Generated → Outcome Generated
  | [], g => .ok g
  | p :: ps, g => do
    let g ← copyHandlePteEntry alloc a g p
    copyWalk alloc a ps g

def copyGenerate (alloc : ℕ → Option ℕ) :
    List Area → List ℕ → Outcome (List CompactPageTable × List ℕ)
  | [], inner => .ok ([], inner)
  | a :: as, inner => do
    let g ← copyWalk alloc a a.ptes ⟨inner, .default⟩
    let (tables, inner) ← copyGenerate alloc as g.inner
    .ok (g.innerFlat :: tables, inner)

/-- Mark the whole memory copy-on-write and describe it. -/
def newCow (space : AddressSpace) (regs : RegDescriptor)
    (rdmaDescriptor : RDMADescriptor) : ShadowProcess :=
  let (tables, inner) := cowGenerate space.areas []
  ⟨⟨regs, tables, space.areas.map Area.vma, rdmaDescriptor⟩, inner⟩

def newCopy (alloc : ℕ → Option ℕ) (space : AddressSpace)
    (regs : RegDescriptor) (rdmaDescriptor : RDMADescriptor) :
    Outcome ShadowProcess := do
  let (tables, inner) ← copyGenerate alloc space.areas []
  .ok ⟨⟨regs, tables, space.areas.map Area.vma, rdmaDescriptor⟩, inner⟩

/-! ## The tables -/

/-- The table of an area when `word` gives the recorded words: one entry for
each present page, in the order of the walk. -/
def tableOf (word : Area → PteEntry → ℕ) (a : Area) : CompactPageTable :=
  ⟨(a.ptes.filter PteEntry.present).map
    fun p => (a.offset p, .ofNat (word a p))⟩

theorem cowHandlePteEntry_innerFlat (a : Area) (g : Generated)
    (ps : List PteEntry) :
    (ps.foldl (cowHandlePteEntry a) g).innerFlat.innerPgTable =
      g.innerFlat.innerPgTable ++ (ps.filter PteEntry.present).map
        fun p => (a.offset p, .ofNat (cowWord a p)) := by
  induction ps generalizing g with
  | nil => simp
  | cons p ps ih =>
    rw [List.foldl_cons, ih]
    by_cases hp : 0 < pmemGetPhyFromPte p.pte
    · simp [cowHandlePteEntry, hp, CompactPageTable.addOne,
        PteEntry.present]
    · simp [cowHandlePteEntry, hp, PteEntry.present]

theorem cowGenerate_tables (as : List Area) (inner : List ℕ) :
    (cowGenerate as inner).1 = as.map (tableOf cowWord) := by
  induction as generalizing inner with
  | nil => rfl
  | cons a as ih =>
    simp only [cowGenerate, List.map_cons, ih]
    congr 1
    have htable := cowHandlePteEntry_innerFlat a ⟨inner, .default⟩ a.ptes
    simp only [CompactPageTable.default, List.nil_append] at htable
    rw [tableOf, ← htable]
    rfl

theorem newCow_tables (space : AddressSpace) (regs : RegDescriptor)
    (rdma : RDMADescriptor) :
    (newCow space regs rdma).descriptor =
      ⟨regs, space.areas.map (tableOf cowWord), space.areas.map Area.vma,
        rdma⟩ := by
  simp only [newCow, cowGenerate_tables]

def copyWord (alloc : ℕ → Option ℕ) (_ : Area) (p : PteEntry) : ℕ :=
  (alloc p.addr).getD 0

theorem copyWalk_innerFlat {alloc : ℕ → Option ℕ} {a : Area}
    {ps : List PteEntry} {g g' : Generated}
    (h : copyWalk alloc a ps g = .ok g') :
    (∀ p ∈ ps, p.present = true → ∃ copied, alloc p.addr = some copied) ∧
      g'.innerFlat.innerPgTable =
        g.innerFlat.innerPgTable ++ (ps.filter PteEntry.present).map
          fun p => (a.offset p, .ofNat (copyWord alloc a p)) := by
  induction ps generalizing g with
  | nil =>
    cases h
    simp
  | cons p ps ih =>
    rw [copyWalk, Outcome.bind_eq_ok] at h
    obtain ⟨g₁, hp, hps⟩ := h
    obtain ⟨halloc, htable⟩ := ih hps
    rw [copyHandlePteEntry] at hp
    split at hp
    · next hpos =>
        rw [Outcome.bind_eq_ok] at hp
        obtain ⟨copied, hcopied, heq⟩ := hp
        rw [Outcome.unwrap_eq_ok] at hcopied
        cases heq
        constructor
        · rintro q hq hpres
          rcases List.mem_cons.mp hq with rfl | hq
          · exact ⟨copied, hcopied⟩
          · exact halloc q hq hpres
        · simp [htable, CompactPageTable.addOne, PteEntry.present, hpos,
            copyWord, hcopied]
    · next hzero =>
        cases hp
        constructor
        · rintro q hq hpres
          rcases List.mem_cons.mp hq with rfl | hq
          · simp [PteEntry.present, hzero] at hpres
          · exact halloc q hq hpres
        · simp [htable, PteEntry.present, hzero]

theorem copyGenerate_tables {alloc : ℕ → Option ℕ} {as : List Area}
    {inner inner' : List ℕ} {tables : List CompactPageTable}
    (h : copyGenerate alloc as inner = .ok (tables, inner')) :
    (∀ a ∈ as, ∀ p ∈ a.ptes, p.present = true →
        ∃ copied, alloc p.addr = some copied) ∧
      tables = as.map (tableOf (copyWord alloc)) := by
  induction as generalizing inner tables with
  | nil =>
    cases h
    simp
  | cons a as ih =>
    rw [copyGenerate, Outcome.bind_eq_ok] at h
    obtain ⟨g, hg, hrest⟩ := h
    rw [Outcome.bind_eq_ok] at hrest
    obtain ⟨⟨tables', inner''⟩, htables, heq⟩ := hrest
    cases heq
    obtain ⟨halloc, htable⟩ := copyWalk_innerFlat hg
    obtain ⟨hallocs, htables⟩ := ih htables
    constructor
    · intro b hb
      rcases List.mem_cons.mp hb with rfl | hb
      · exact halloc
      · exact hallocs b hb
    · simp only [CompactPageTable.default, List.nil_append] at htable
      rw [List.map_cons, htables, tableOf, ← htable]

theorem newCopy_tables {alloc : ℕ → Option ℕ} {space : AddressSpace}
    {regs : RegDescriptor} {rdma : RDMADescriptor} {sp : ShadowProcess}
    (h : newCopy alloc space regs rdma = .ok sp) :
    (∀ a ∈ space.areas, ∀ p ∈ a.ptes, p.present = true →
        ∃ copied, alloc p.addr = some copied) ∧
      sp.descriptor =
        ⟨regs, space.areas.map (tableOf (copyWord alloc)),
          space.areas.map Area.vma, rdma⟩ := by
  rw [newCopy, Outcome.bind_eq_ok] at h
  obtain ⟨⟨tables, inner⟩, hgen, heq⟩ := h
  cases heq
  obtain ⟨halloc, htables⟩ := copyGenerate_tables hgen
  exact ⟨halloc, by rw [htables]⟩

end Mitosis.Shadow
