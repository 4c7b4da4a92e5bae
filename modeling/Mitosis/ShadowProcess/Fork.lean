import Mitosis.Descriptors.Decoders
import Mitosis.RemoteMapping.FiniteMap
import Mitosis.ShadowProcess.Basic

/-!
# From the parent's memory to the child's page table

A present page of the parent is recorded as an offset, written to a buffer,
read by the child and inserted into its page table.  The child sees the page
at the start of the area plus the recorded offset, so the whole path is
faithful exactly when no offset was narrowed.
-/

namespace Mitosis.Shadow

open Support OsNetwork Descriptors RemoteMapping

/-! ## Mapping a list of pages -/

/-- A finite map after pairs of a page number and a word were inserted, none
of them over an existing page. -/
structure Mapped (m m' : PageMap) (pairs : List (ℕ × ℕ)) : Prop where
  sound : ∀ k w, m'.lookup k = some w → m.lookup k = some w ∨ (k, w) ∈ pairs
  keeps : ∀ k ∈ m, k ∈ m'
  complete : ∀ k w, (k, w) ∈ pairs → k ∈ m'

theorem Mapped.refl (m : PageMap) : Mapped m m [] where
  sound _ _ h := Or.inl h
  keeps _ h := h
  complete _ _ h := nomatch h

theorem Mapped.append {m m' m'' : PageMap} {ps qs : List (ℕ × ℕ)}
    (h : Mapped m m' ps) (h' : Mapped m' m'' qs) :
    Mapped m m'' (ps ++ qs) where
  sound k w hk := by
    rcases h'.sound k w hk with hk | hk
    · rcases h.sound k w hk with hk | hk
      · exact Or.inl hk
      · exact Or.inr (List.mem_append_left _ hk)
    · exact Or.inr (List.mem_append_right _ hk)
  keeps k hk := h'.keeps k (h.keeps k hk)
  complete k w hk := by
    rcases List.mem_append.mp hk with hk | hk
    · exact h'.keeps k (h.complete k w hk)
    · exact h'.complete k w hk

def entryPair (start : UInt64) (e : UInt32 × UInt64) : ℕ × ℕ :=
  ((start.toNat + e.1.toNat) / 4096, e.2.toNat)

variable {s : Heap × RemotePageTable} {m : PageMap}

variable {start : UInt64} {e : UInt32 × UInt64}

theorem mapEntry_mapped (hr : Represents s.1 s.2 m)
    (hsum : SumCanonical start e.1) (hword : e.2.toNat ≠ 0) :
    ∃ s' m', mapEntry start s e = .ok s' ∧ Represents s'.1 s'.2 m' ∧
      Mapped m m' [entryPair start e] := by
  let a : VirtAddr := ⟨start.toNat + e.1.toNat, hsum.2⟩
  obtain ⟨hstep, -⟩ := hr.step (.map a e.2.toNat) hword
  refine ⟨_, _, mapEntry_of_sumCanonical hsum s, hstep, ?_⟩
  have hpage : (entryPair start e).1 = a.pageNumber := rfl
  simp only [pageMapMachine]
  cases hlook : m.lookup a.pageNumber with
  | some w₀ =>
    refine ⟨fun _ _ h => Or.inl h, fun _ h => h, ?_⟩
    intro k w hk
    rw [List.mem_singleton] at hk
    have hkey : k = a.pageNumber := congrArg Prod.fst hk
    rw [hkey]
    exact Finmap.mem_of_lookup_eq_some hlook
  | none =>
    refine ⟨?_, ?_, ?_⟩
    · intro k w hk
      by_cases hkey : k = a.pageNumber
      · rw [hkey, Finmap.lookup_insert, Option.some.injEq] at hk
        exact Or.inr (List.mem_singleton.mpr (Prod.ext hkey hk.symm))
      · rw [Finmap.lookup_insert_of_ne m hkey] at hk
        exact Or.inl hk
    · intro k hk
      exact Finmap.mem_insert.mpr (Or.inr hk)
    · intro k w hk
      rw [List.mem_singleton] at hk
      have hkey : k = a.pageNumber := congrArg Prod.fst hk
      exact Finmap.mem_insert.mpr (Or.inl hkey)

theorem mapTable_mapped {es : List (UInt32 × UInt64)} (hr : Represents s.1 s.2 m)
    (hsums : ∀ e ∈ es, SumCanonical start e.1)
    (hwords : ∀ e ∈ es, e.2.toNat ≠ 0) :
    ∃ s' m', ParentDescriptor.mapTable start es s = .ok s' ∧
      Represents s'.1 s'.2 m' ∧ Mapped m m' (es.map (entryPair start)) := by
  induction es generalizing s m with
  | nil => exact ⟨s, m, rfl, hr, .refl m⟩
  | cons e es ih =>
    obtain ⟨s₁, m₁, hs₁, hr₁, hm₁⟩ :=
      mapEntry_mapped hr (hsums e (by simp)) (hwords e (by simp))
    obtain ⟨s₂, m₂, hs₂, hr₂, hm₂⟩ := ih hr₁
      (fun e' he' => hsums e' (by simp [he']))
      (fun e' he' => hwords e' (by simp [he']))
    refine ⟨s₂, m₂, ?_, hr₂, hm₁.append hm₂⟩
    rw [ParentDescriptor.mapTable, hs₁]
    exact hs₂

theorem mapFrames_mapped {fs : List (VMADescriptor × CompactPageTable)} (hr : Represents s.1 s.2 m)
    (hsums : ∀ f ∈ fs, ∀ e ∈ f.2.innerPgTable,
      SumCanonical f.1.getStart e.1)
    (hwords : ∀ f ∈ fs, ∀ e ∈ f.2.innerPgTable, e.2.toNat ≠ 0) :
    ∃ s' m', mapFrames fs s = .ok s' ∧ Represents s'.1 s'.2 m' ∧
      Mapped m m' (fs.flatMap fun f =>
        f.2.innerPgTable.map (entryPair f.1.getStart)) := by
  induction fs generalizing s m with
  | nil => exact ⟨s, m, rfl, hr, .refl m⟩
  | cons f fs ih =>
    obtain ⟨s₁, m₁, hs₁, hr₁, hm₁⟩ :=
      mapTable_mapped hr (hsums f (by simp)) (hwords f (by simp))
    obtain ⟨s₂, m₂, hs₂, hr₂, hm₂⟩ := ih hr₁
      (fun f' hf' => hsums f' (by simp [hf']))
      (fun f' hf' => hwords f' (by simp [hf']))
    refine ⟨s₂, m₂, ?_, hr₂, ?_⟩
    · rw [mapFrames, hs₁]
      exact hs₂
    · rw [List.flatMap_cons]
      exact hm₁.append hm₂

/-! ## Where the child sees a page -/

/-- The address at which the child maps a page: the offset has 32 bits. -/
def landing (a : Area) (p : PteEntry) : ℕ :=
  a.start + (p.addr - a.start) % 2 ^ 32

/-- No offset is narrowed. -/
def OffsetsFit (space : AddressSpace) : Prop :=
  ∀ a ∈ space.areas, ∀ p ∈ a.ptes, p.present = true →
    p.addr - a.start < 2 ^ 32

variable {a : Area} {p : PteEntry}

theorem offset_toNat (a : Area) (p : PteEntry) :
    (a.offset p).toNat = (p.addr - a.start) % 2 ^ 32 := by
  rw [Area.offset, UInt32.toNat_ofNat']

theorem landing_le (hp : p ∈ a.ptes) :
    a.start ≤ landing a p ∧ landing a p ≤ p.addr := by
  have hstart : a.start ≤ p.addr := (a.inside p hp).1
  have hmod := Nat.mod_le (p.addr - a.start) (2 ^ 32)
  constructor
  · exact Nat.le_add_right _ _
  · rw [landing]
    omega

theorem sumCanonical_offset (hp : p ∈ a.ptes) :
    SumCanonical a.vma.getStart (a.offset p) := by
  have hle := (landing_le hp).2
  have hend := (a.inside p hp).2.1
  have huser := a.user
  rw [landing, Area.start] at hle
  rw [SumCanonical, offset_toNat, Area.start]
  constructor
  · omega
  · exact Or.inl (by omega)

/-- One of the two areas lies behind the other. -/
def Apart (a b : Area) : Prop :=
  a.vma.getEnd.toNat ≤ b.vma.getStart.toNat ∨
    b.vma.getEnd.toNat ≤ a.vma.getStart.toNat

instance : Std.Symm Apart := ⟨fun _ _ => Or.symm⟩

variable {space : AddressSpace}

theorem areas_apart {a a' : Area}
    (ha : a ∈ space.areas) (ha' : a' ∈ space.areas) (hne : a' ≠ a) :
    Apart a' a := by
  have hpair : space.areas.Pairwise Apart := space.sorted.imp Or.inl
  exact hpair.forall ha' ha hne

/-- An entry that lands on a page of the parent lands on its very address, in
the same area. -/
theorem landing_same_page {a a' : Area}
    (ha : a ∈ space.areas) (ha' : a' ∈ space.areas) {p p' : PteEntry}
    (hp : p ∈ a.ptes) (hp' : p' ∈ a'.ptes)
    (hpage : landing a' p' / 4096 = p.addr / 4096) :
    a' = a ∧ landing a' p' = p.addr := by
  have hin := a.inside p hp
  have hin' := a'.inside p' hp'
  have hle := landing_le hp'
  have hmod : landing a' p' % 4096 = 0 := by
    have hstart := a'.startAligned
    have haddr := hin'.2.2
    rw [landing, Area.start]
    omega
  have heq : landing a' p' = p.addr := by
    have := hin.2.2
    omega
  refine ⟨?_, heq⟩
  by_contra hne
  have hapart := areas_apart ha ha' hne
  rw [Area.start] at hle
  rw [Apart] at hapart
  omega

/-- The pages the child maps, with their words. -/
def pagePairs (space : AddressSpace) (word : Area → PteEntry → ℕ) :
    List (ℕ × ℕ) :=
  space.areas.flatMap fun a => (a.ptes.filter PteEntry.present).map
    fun p => (landing a p / 4096, word a p)

variable {word : Area → PteEntry → ℕ}

theorem mem_pagePairs {k w : ℕ} :
    (k, w) ∈ pagePairs space word ↔
      ∃ a ∈ space.areas, ∃ p ∈ a.ptes, p.present = true ∧
        k = landing a p / 4096 ∧ w = word a p := by
  simp only [pagePairs, List.mem_flatMap, List.mem_map, List.mem_filter,
    Prod.mk.injEq]
  constructor
  · rintro ⟨a, ha, p, ⟨hp, hpres⟩, rfl, rfl⟩
    exact ⟨a, ha, p, hp, hpres, rfl, rfl⟩
  · rintro ⟨a, ha, p, hp, hpres, rfl, rfl⟩
    exact ⟨a, ha, p, ⟨hp, hpres⟩, rfl, rfl⟩

/-- The words are those of 64-bit non-zero integers. -/
def WordsFit (space : AddressSpace) (word : Area → PteEntry → ℕ) : Prop :=
  ∀ a ∈ space.areas, ∀ p ∈ a.ptes, p.present = true →
    0 < word a p ∧ word a p < 2 ^ 64

section Descriptor

variable {space : AddressSpace} {word : Area → PteEntry → ℕ}

theorem zip_tables (space : AddressSpace) (word : Area → PteEntry → ℕ) :
    (space.areas.map Area.vma).zip (space.areas.map (tableOf word)) =
      space.areas.map fun a => (a.vma, tableOf word a) :=
  List.zip_map' ..

theorem mem_frames {f : VMADescriptor × CompactPageTable}
    (hf : f ∈ (space.areas.map Area.vma).zip
      (space.areas.map (tableOf word))) (he : e ∈ f.2.innerPgTable) :
    ∃ a ∈ space.areas, ∃ p ∈ a.ptes, p.present = true ∧ f.1 = a.vma ∧
      e = (a.offset p, .ofNat (word a p)) := by
  rw [zip_tables, List.mem_map] at hf
  obtain ⟨a, ha, rfl⟩ := hf
  obtain ⟨p, hp, rfl⟩ := List.mem_map.mp he
  obtain ⟨hmem, hpres⟩ := List.mem_filter.mp hp
  exact ⟨a, ha, p, hmem, hpres, rfl, rfl⟩

theorem toNat_ofNat_word (hword : WordsFit space word)
    (ha : a ∈ space.areas) (hp : p ∈ a.ptes)
    (hpres : p.present = true) :
    (UInt64.ofNat (word a p)).toNat = word a p := by
  rw [UInt64.toNat_ofNat']
  exact Nat.mod_eq_of_lt (hword a ha p hp hpres).2

theorem frames_pairs (hword : WordsFit space word) :
    ((space.areas.map Area.vma).zip (space.areas.map (tableOf word))).flatMap
        (fun f => f.2.innerPgTable.map (entryPair f.1.getStart)) =
      pagePairs space word := by
  rw [zip_tables, List.flatMap_map, pagePairs]
  apply List.flatMap_congr
  intro a ha
  rw [tableOf, List.map_map]
  apply List.map_congr_left
  intro p hp
  obtain ⟨hmem, hpres⟩ := List.mem_filter.mp hp
  simp only [Function.comp, entryPair, offset_toNat, landing, Area.start,
    toNat_ofNat_word hword ha hmem hpres]

theorem child_mapped (L : Layout) (hword : WordsFit space word)
    (regs : RegDescriptor) (rdma : RDMADescriptor) (h : Heap) {b : BytesMut}
    (m : Memory) {d : ParentDescriptor}
    (hd : d = ⟨regs, space.areas.map (tableOf word),
      space.areas.map Area.vma, rdma⟩)
    (hlen : d.serializationBufLen L ≤ b.len) :
    ∃ r h' c pages, d.serialize L b m = .ok r ∧ r.returned = true ∧
      ChildDescriptor.deserialize L h b r.memory = .ok (h', c) ∧
      Represents h' c.pageTable pages ∧
      Mapped ∅ pages (pagePairs space word) := by
  have hlength : d.vma.length = d.pageTable.length := by simp [hd]
  have himage := ParentDescriptor.length_image (L := L) hlength
  have hread : ParentDescriptor.deserialize L b
      (writeBytes m b.ptr (d.image L)) = .ok d :=
    ParentDescriptor.deserialize_of_holds hlength (by omega)
      (holds_writeBytes m b.ptr _)
  have hframe : ∀ f ∈ d.vma.zip d.pageTable, ∀ e ∈ f.2.innerPgTable,
      SumCanonical f.1.getStart e.1 ∧ e.2.toNat ≠ 0 := by
    intro f hf e he
    rw [hd] at hf
    obtain ⟨a, ha, p, hp, hpres, hvma, rfl⟩ := mem_frames hf he
    refine ⟨hvma ▸ sumCanonical_offset hp, ?_⟩
    rw [toNat_ofNat_word hword ha hp hpres]
    exact (hword a ha p hp hpres).1.ne'
  have hsums : ∀ q ∈ scannedSums L b (writeBytes m b.ptr (d.image L)),
      SumCanonical q.1 q.2 := by
    intro q hq
    obtain ⟨f, hf, e, he, rfl⟩ := mem_scannedSums_of_ok L hread hq
    exact (hframe f hf e he).1
  obtain ⟨s, pages, hs, hrep, hmapped⟩ := mapFrames_mapped
    (represents_new h) (fun f hf e he => (hframe f hf e he).1)
    (fun f hf e he => (hframe f hf e he).2)
  have hto : d.toDescriptor h =
      .ok (s.1, ⟨d.regs, s.2, d.vma, d.machineInfo⟩) := by
    rw [ParentDescriptor.toDescriptor,
      mapTables_eq_mapFrames (by simpa using hlength), List.drop_zero, hs]
    rfl
  have hchild : ChildDescriptor.deserialize L h b
      (writeBytes m b.ptr (d.image L)) =
      .ok (s.1, ⟨d.regs, s.2, d.vma, d.machineInfo⟩) := by
    rcases deserialize_agree L h b _ fun q hq => (hsums q hq).accepted with
      ⟨habsent, -⟩ | ⟨d', r, hparent, hchild, hto'⟩
    · rw [hread] at habsent
      cases habsent
    · rw [hread] at hparent
      cases hparent
      rw [hto] at hto'
      cases hto'
      exact hchild
  refine ⟨_, s.1, _, pages, ParentDescriptor.serialize_eq hlength hlen m, rfl,
    hchild, hrep, ?_⟩
  rw [hd] at hmapped
  rwa [frames_pairs hword] at hmapped

end Descriptor

/-! ## Faithfulness -/

/-- The child finds, for every address in a present page of the parent, a word
that decodes to the recorded physical address, and finds no other page. -/
structure Faithful (space : AddressSpace) (phys : Area → PteEntry → ℕ)
    (lookup : UInt64 → Outcome (Option PhysAddr)) : Prop where
  present : ∀ a ∈ space.areas, ∀ p ∈ a.ptes, p.present = true →
    ∀ va : UInt64, va.toNat / 4096 = p.addr / 4096 →
      ∃ w, lookup va = .ok (some w) ∧ PhysAddr.decode w = phys a p
  absent : ∀ va : UInt64, Canonical va.toNat →
    (∀ a ∈ space.areas, ∀ p ∈ a.ptes, p.present = true →
      va.toNat / 4096 ≠ p.addr / 4096) →
    lookup va = .ok none

variable {h : Heap} {c : ChildDescriptor} {pages : PageMap}

theorem lookupPgTable_eq (hrep : Represents h c.pageTable pages) {va : UInt64}
    (hva : Canonical va.toNat) :
    c.lookupPgTable h va = .ok (pages.lookup (va.toNat / 4096)) := by
  rw [ChildDescriptor.lookupPgTable, VirtAddr.new_of_canonical hva]
  simp only [Outcome.unwrap_some, Outcome.ok_bind, hrep.translate]
  rfl

theorem canonical_of_page (hp : p ∈ a.ptes)
    {va : ℕ} (hva : va / 4096 = p.addr / 4096) : Canonical va := by
  have hin := a.inside p hp
  have huser := a.user
  have halign := a.endAligned
  exact Or.inl (by omega)

/-- The path from the parent's pages to the child's lookups is faithful
exactly when no offset is narrowed. -/
theorem faithful_iff {phys : Area → PteEntry → ℕ}
    (hdecode : ∀ a ∈ space.areas, ∀ p ∈ a.ptes, p.present = true →
      PhysAddr.decode (word a p) = phys a p)
    (hrep : Represents h c.pageTable pages)
    (hmapped : Mapped ∅ pages (pagePairs space word)) :
    Faithful space phys (c.lookupPgTable h) ↔ OffsetsFit space := by
  have hsound : ∀ k w, pages.lookup k = some w →
      ∃ a ∈ space.areas, ∃ p ∈ a.ptes, p.present = true ∧
        k = landing a p / 4096 ∧ w = word a p := by
    intro k w hk
    rcases hmapped.sound k w hk with hempty | hpair
    · rw [Finmap.lookup_empty] at hempty
      cases hempty
    · exact mem_pagePairs.mp hpair
  constructor
  · intro hfaithful a ha p hp hpres
    have hin := a.inside p hp
    have huser := a.user
    have hlt : p.addr < 2 ^ 64 := by omega
    have hva : (UInt64.ofNat p.addr).toNat = p.addr := by
      rw [UInt64.toNat_ofNat']
      exact Nat.mod_eq_of_lt hlt
    obtain ⟨w, hlook, -⟩ := hfaithful.present a ha p hp hpres
      (.ofNat p.addr) (by rw [hva])
    rw [lookupPgTable_eq hrep (canonical_of_page hp (by rw [hva])),
      hva] at hlook
    cases hpage : pages.lookup (p.addr / 4096) with
    | none =>
      rw [hpage] at hlook
      cases hlook
    | some w' =>
      obtain ⟨a', ha', p', hp', -, hkey, -⟩ := hsound _ _ hpage
      obtain ⟨rfl, heq⟩ := landing_same_page ha ha' hp hp' hkey.symm
      have hmod := Nat.mod_lt (p'.addr - a'.start)
        (by norm_num : 2 ^ 32 > 0)
      rw [landing] at heq
      omega
  · intro hfit
    have hlanding : ∀ a ∈ space.areas, ∀ p ∈ a.ptes, p.present = true →
        landing a p = p.addr := by
      intro a ha p hp hpres
      have hstart : a.start ≤ p.addr := (a.inside p hp).1
      rw [landing, Nat.mod_eq_of_lt (hfit a ha p hp hpres)]
      omega
    constructor
    · intro a ha p hp hpres va hva
      rw [lookupPgTable_eq hrep (canonical_of_page hp hva), hva]
      have hmem : p.addr / 4096 ∈ pages :=
        hmapped.complete _ (word a p) (mem_pagePairs.mpr
          ⟨a, ha, p, hp, hpres, by rw [hlanding a ha p hp hpres], rfl⟩)
      obtain ⟨w, hw⟩ := Finmap.mem_iff.mp hmem
      obtain ⟨a', ha', p', hp', hpres', hkey, rfl⟩ := hsound _ _ hw
      obtain ⟨rfl, heq⟩ := landing_same_page ha ha' hp hp' hkey.symm
      rw [hlanding a' ha' p' hp' hpres'] at heq
      have hsame : p' = p :=
        List.inj_on_of_nodup_map a'.distinct hp' hp heq
      subst hsame
      exact ⟨_, by rw [hw], hdecode a' ha' p' hp hpres⟩
    · intro va hva hnone
      rw [lookupPgTable_eq hrep hva]
      cases hpage : pages.lookup (va.toNat / 4096) with
      | none => rfl
      | some w =>
        obtain ⟨a, ha, p, hp, hpres, hkey, -⟩ := hsound _ _ hpage
        rw [hlanding a ha p hp hpres] at hkey
        exact absurd hkey (hnone a ha p hp hpres)

/-! ## The two kinds of shadow process -/

theorem cowWord_eq (a : Area) (p : PteEntry) :
    ∃ flag : PhysAddrBitFlag, cowWord a p =
      PhysAddr.encode (pmemGetPhyFromPte p.pte) flag.bits := by
  simp only [cowWord]
  generalize (if hasWritePermission a.vma = true then
    pmemClearPteWrite p.pte else p.pte) = pte
  split
  · exact ⟨.readOnly, rfl⟩
  · exact ⟨.empty, by simp [PhysAddr.encode, PhysAddrBitFlag.bits]⟩

theorem pmemGetPhyFromPte_mod_eight (pte : ℕ) :
    pmemGetPhyFromPte pte % 8 = 0 := by
  have := pmemGetPhyFromPte_mod pte
  omega

theorem cowWord_fits (space : AddressSpace) : WordsFit space cowWord := by
  intro a _ p _ hpres
  obtain ⟨flag, hword⟩ := cowWord_eq a p
  have hpos : 0 < pmemGetPhyFromPte p.pte := by
    simpa [PteEntry.present] using hpres
  have hlt := pmemGetPhyFromPte_lt p.pte
  have hflag : flag.bits < 8 := by cases flag <;> decide
  rw [hword, PhysAddr.encode_eq (pmemGetPhyFromPte_mod_eight p.pte)]
  omega

theorem decode_cowWord (a : Area) (p : PteEntry) :
    PhysAddr.decode (cowWord a p) = pmemGetPhyFromPte p.pte := by
  obtain ⟨flag, hword⟩ := cowWord_eq a p
  have hlt := pmemGetPhyFromPte_lt p.pte
  rw [hword, PhysAddr.decode_encode (pmemGetPhyFromPte_mod_eight p.pte)
    (by omega)]

/-- A page allocator gives 4 KiB aligned physical addresses. -/
def AllocatesPages (alloc : ℕ → Option ℕ) : Prop :=
  ∀ addr phy, alloc addr = some phy →
    0 < phy ∧ phy % 4096 = 0 ∧ phy < 2 ^ 64

/-- Both kinds of shadow process, serialised into a buffer that is long
enough, are read by the child, and the child's lookups are faithful to the
parent's pages exactly when every present page lies within 4 GiB of the start
of its area. -/
theorem fork_faithful_iff_offsets_fit (L : Layout) (space : AddressSpace) (regs : RegDescriptor)
    (rdma : RDMADescriptor) (h : Heap) (b : BytesMut) (m : Memory) :
    ((newCow space regs rdma).descriptor.serializationBufLen L ≤ b.len →
      ∃ r h' c, (newCow space regs rdma).descriptor.serialize L b m = .ok r ∧
        r.returned = true ∧
        ChildDescriptor.deserialize L h b r.memory = .ok (h', c) ∧
        (Faithful space (fun _ p => pmemGetPhyFromPte p.pte)
          (c.lookupPgTable h') ↔ OffsetsFit space)) ∧
    (∀ alloc sp, AllocatesPages alloc →
      newCopy alloc space regs rdma = .ok sp →
      sp.descriptor.serializationBufLen L ≤ b.len →
      ∃ r h' c, sp.descriptor.serialize L b m = .ok r ∧
        r.returned = true ∧
        ChildDescriptor.deserialize L h b r.memory = .ok (h', c) ∧
        (Faithful space (fun _ p => (alloc p.addr).getD 0)
          (c.lookupPgTable h') ↔ OffsetsFit space)) := by
  constructor
  · intro hlen
    obtain ⟨r, h', c, pages, hwrite, hdone, hread, hrep, hmapped⟩ :=
      child_mapped L (cowWord_fits space) regs rdma h m
        (newCow_tables space regs rdma) hlen
    exact ⟨r, h', c, hwrite, hdone, hread,
      faithful_iff (fun a _ p _ _ => decode_cowWord a p) hrep hmapped⟩
  · intro alloc sp halloc hcopy hlen
    obtain ⟨hall, htables⟩ := newCopy_tables hcopy
    have hword : ∀ a ∈ space.areas, ∀ p ∈ a.ptes, p.present = true →
        0 < copyWord alloc a p ∧ copyWord alloc a p % 4096 = 0 ∧
          copyWord alloc a p < 2 ^ 64 := by
      intro a ha p hp hpres
      obtain ⟨copied, hcopied⟩ := hall a ha p hp hpres
      rw [copyWord, hcopied]
      exact halloc p.addr copied hcopied
    obtain ⟨r, h', c, pages, hwrite, hdone, hread, hrep, hmapped⟩ :=
      child_mapped L
        (fun a ha p hp hpres => ⟨(hword a ha p hp hpres).1,
          (hword a ha p hp hpres).2.2⟩) regs rdma h m htables hlen
    refine ⟨r, h', c, hwrite, hdone, hread, faithful_iff ?_ hrep hmapped⟩
    intro a ha p hp hpres
    obtain ⟨-, halign, hlt⟩ := hword a ha p hp hpres
    exact PhysAddr.decode_of_aligned (by omega) hlt

def pageArea : Area where
  vma := ⟨(0x10000000000, 0x10000001000), 0x3, 0x25, true⟩
  ptes := [⟨0x10000000000, 0x5067⟩]
  startAligned := by decide
  endAligned := by decide
  user := by decide
  inside := by decide
  distinct := by decide

/-- A small process is forked faithfully. -/
theorem fork_faithful_iff_offsets_fit_page :
    let space : AddressSpace := ⟨[pageArea], by simp⟩
    let regs : RegDescriptor := ⟨⟨1, 2, 3, 4, 5, 6, 7, 8, 9, 10, 11, 12, 13,
      14, 15, 16, 17, 18, 19, 20, 21⟩, 22, 23⟩
    let rdma : RDMADescriptor := ⟨0, 1, (2, 3), 4, 5, 6, 7, 8⟩
    let d := (newCow space regs rdma).descriptor
    let b : BytesMut := ⟨4096, 320, by decide⟩
    d.serializationBufLen Layout.packed ≤ b.len ∧
      ∃ r h c, d.serialize Layout.packed b (fun _ => 0) = .ok r ∧
        ChildDescriptor.deserialize Layout.packed Heap.empty b r.memory =
          .ok (h, c) ∧
        Faithful space (fun _ p => pmemGetPhyFromPte p.pte)
          (c.lookupPgTable h) := by
  intro space regs rdma d b
  have hlen : d.serializationBufLen Layout.packed ≤ b.len := by
    decide +kernel
  have hfit : OffsetsFit space := by
    intro a ha p hp _
    cases List.mem_singleton.mp ha
    cases List.mem_singleton.mp hp
    decide
  obtain ⟨hcow, -⟩ := fork_faithful_iff_offsets_fit Layout.packed space regs
    rdma Heap.empty b (fun _ => 0)
  obtain ⟨r, h, c, hwrite, -, hread, hiff⟩ := hcow hlen
  exact ⟨hlen, r, h, c, hwrite, hread, hiff.mpr hfit⟩

/-- An area of 8 GiB with one present page, 4 GiB behind its start. -/
def wideArea : Area where
  vma := ⟨(0x10000000000, 0x10200000000), 0x3, 0x25, true⟩
  ptes := [⟨0x10100000000, 0x5067⟩]
  startAligned := by decide
  endAligned := by decide
  user := by decide
  inside := by decide
  distinct := by decide

def sampleRegs : RegDescriptor :=
  ⟨⟨1, 2, 3, 4, 5, 6, 7, 8, 9, 10, 11, 12, 13, 14, 15, 16, 17, 18, 19, 20,
    21⟩, 22, 23⟩

def sampleRdma : RDMADescriptor := ⟨0, 1, (2, 3), 4, 5, 6, 7, 8⟩

/-- What the child finds at two addresses after a copy-on-write fork. -/
def lookupsAfterFork (space : AddressSpace) (va va' : UInt64) :
    Outcome (Option PhysAddr × Option PhysAddr) := do
  let b : BytesMut := ⟨4096, 320, by decide⟩
  let d := (newCow space sampleRegs sampleRdma).descriptor
  let r ← d.serialize Layout.packed b fun _ => 0
  let (h, c) ← ChildDescriptor.deserialize Layout.packed Heap.empty b r.memory
  let there ← c.lookupPgTable h va
  let wrong ← c.lookupPgTable h va'
  .ok (there, wrong)

/-- The page is present in the parent, but the child finds nothing at its
address and finds it at the start of the area instead. -/
theorem fork_moves_page_behind_4GiB :
    (∃ p ∈ wideArea.ptes, p.present = true ∧ p.addr = 0x10100000000) ∧
      lookupsAfterFork ⟨[wideArea], by simp⟩ 0x10100000000 0x10000000000 =
        .ok (none, some 0x5004) := by
  refine ⟨⟨_, List.mem_cons_self, by decide, rfl⟩, ?_⟩
  decide +kernel

end Mitosis.Shadow
