import Mitosis.Resume.Regions

/-!
# The address space of a task

The kernel links the areas of a process in the order of their addresses, and the wrappers
go through them by their `vm_next`.  An area is known by the address of its structure here,
and the link of an area is the one behind it in the list: a structure that is not in the
list was freed, and reading it is not defined.

Linux is the environment.  What it does is not given: `Kernel` names the operations that the
wrappers call and what is used of them.  The last section has a kernel of which that is true.
-/

namespace Mitosis.KernWrappers

open Support Descriptors
open Resume (Region)

/-! ## Areas -/

/-- `vm_area_struct`, as far as the wrappers read it; `vmOps` tells whether there is a
table of operations. -/
structure VmAreaStruct where
  vmStart : UInt64
  vmEnd : UInt64
  vmFlags : UInt64
  vmPageProt : UInt64
  vmOps : Bool
deriving DecidableEq

/-- `TASK_SIZE`: user space ends here. -/
def taskSize : ℕ := 2 ^ 47 - 4096

/-- `mm_struct`: the areas of a process, each with the address of its structure.  They are
made of whole pages, and sorted. -/
structure MmStruct where
  areas : List (ℕ × VmAreaStruct)
  distinct : (areas.map Prod.fst).Nodup
  nonempty : ∀ z ∈ areas, z.2.vmStart < z.2.vmEnd
  sorted : areas.Pairwise fun z w => z.2.vmEnd ≤ w.2.vmStart
  aligned : ∀ z ∈ areas, z.2.vmStart.toNat % 4096 = 0 ∧ z.2.vmEnd.toNat % 4096 = 0
  user : ∀ z ∈ areas, z.2.vmEnd.toNat ≤ taskSize

/-! ## Going through the areas -/

structure VMAIter where
  cur : Option ℕ

def MmStruct.getVmaIter (mm : MmStruct) : VMAIter := ⟨mm.areas.head?.map Prod.fst⟩

namespace VMAIter

/-- The next area, if there is one.  The link is read before the area is handed out.
There is no result if the structure was freed. -/
def next (it : VMAIter) (mm : MmStruct) : Option (Option VmAreaStruct × VMAIter) :=
  match it.cur with
  | none => some (none, it)
  | some res =>
    match mm.areas.dropWhile fun z => z.1 != res with
    | [] => none
    | z :: rest => some (some z.2, ⟨rest.head?.map Prod.fst⟩)

/-- A loop over the areas of a process that its body may change, for some rounds. -/
def forEach {σ : Type} (mmOf : σ → MmStruct) (body : σ → VmAreaStruct → σ) :
    ℕ → VMAIter → σ → Option σ
  | 0, _, _ => none
  | n + 1, it, s =>
    match it.next (mmOf s) with
    | none => none
    | some (none, _) => some s
    | some (some m, it) => forEach mmOf body n it (body s m)

/-- The iterator has these areas before it. -/
def Before (it : VMAIter) (mm : MmStruct) (rest : List (ℕ × VmAreaStruct)) : Prop :=
  it.cur = rest.head?.map Prod.fst ∧ rest <:+ mm.areas

variable {it : VMAIter}

theorem before_getVmaIter (mm : MmStruct) : mm.getVmaIter.Before mm mm.areas :=
  ⟨rfl, List.suffix_rfl⟩

theorem Before.next_nil {mm : MmStruct} (h : it.Before mm []) :
    it.next mm = some (none, it) := by
  obtain ⟨hcur, -⟩ := h
  rw [List.head?_nil, Option.map_none] at hcur
  rw [next, hcur]

theorem Before.next_cons {mm : MmStruct} {z : ℕ × VmAreaStruct}
    {rest : List (ℕ × VmAreaStruct)} (h : it.Before mm (z :: rest)) :
    it.next mm = some (some z.2, ⟨rest.head?.map Prod.fst⟩) := by
  obtain ⟨hcur, before, hareas⟩ := h
  have hdistinct := mm.distinct
  rw [← hareas, List.map_append, List.map_cons, List.nodup_append] at hdistinct
  have hskip : ∀ w ∈ before, (w.1 != z.1) = true := by
    intro w hw
    rw [bne_iff_ne]
    exact hdistinct.2.2 w.1 (List.mem_map_of_mem hw) z.1 List.mem_cons_self
  rw [List.head?_cons, Option.map_some] at hcur
  rw [next, hcur, ← hareas]
  dsimp only
  rw [List.dropWhile_append_of_pos hskip, List.dropWhile_cons_of_neg (by simp)]

/-- A loop whose body leaves the areas behind the current one comes to every area. -/
theorem forEach_eq {σ : Type} (mmOf : σ → MmStruct) (body : σ → VmAreaStruct → σ)
    (hbody : ∀ s z rest, (z :: rest) <:+ (mmOf s).areas → rest <:+ (mmOf (body s z.2)).areas)
    {rest : List (ℕ × VmAreaStruct)} {s : σ} {n : ℕ}
    (h : it.Before (mmOf s) rest) (hn : rest.length < n) :
    it.forEach mmOf body n s = some (rest.foldl (fun s z => body s z.2) s) := by
  induction rest generalizing it s n with
  | nil =>
    obtain ⟨n, rfl⟩ := Nat.exists_eq_add_one.mpr (Nat.zero_lt_of_lt hn)
    rw [forEach, h.next_nil]
    rfl
  | cons z rest ih =>
    obtain ⟨n, rfl⟩ := Nat.exists_eq_add_one.mpr (Nat.zero_lt_of_lt hn)
    rw [forEach, h.next_cons]
    exact ih ⟨rfl, hbody s z rest h.2⟩ (Nat.lt_of_succ_lt_succ hn)

end VMAIter

namespace VmAreaStruct

def getSz (m : VmAreaStruct) : UInt64 := m.vmEnd - m.vmStart

def isAnonymous (m : VmAreaStruct) : Bool := !m.vmOps

def generateDescriptor (m : VmAreaStruct) : VMADescriptor :=
  ⟨(m.vmStart, m.vmEnd), m.vmFlags, m.vmPageProt, m.isAnonymous⟩

end VmAreaStruct

namespace MmStruct

def generateDescriptors (mm : MmStruct) : Option (List VMADescriptor) :=
  mm.getVmaIter.forEach (fun _ => mm) (fun vmas m => vmas ++ [m.generateDescriptor])
    (mm.areas.length + 1) []

theorem generateDescriptors_eq (mm : MmStruct) :
    mm.generateDescriptors = some (mm.areas.map fun z => z.2.generateDescriptor) := by
  rw [generateDescriptors, VMAIter.forEach_eq _ _
    (fun _ z rest h => (List.suffix_cons z rest).trans h) (VMAIter.before_getVmaIter mm)
    (Nat.lt_succ_self _)]
  have hcollect : ∀ (l : List (ℕ × VmAreaStruct)) (vmas : List VMADescriptor),
      l.foldl (fun vmas z => vmas ++ [z.2.generateDescriptor]) vmas =
        vmas ++ l.map fun z => z.2.generateDescriptor := by
    intro l
    induction l with
    | nil => simp
    | cons z l ih => simp [ih]
  rw [hcollect, List.nil_append]

end MmStruct

/-! ## Flags -/

def vmRead : UInt64 := 0x1

def vmWrite : UInt64 := 0x2

def vmExec : UInt64 := 0x4

/-- A stack grows down. -/
def vmStack : UInt64 := 0x100

def vmDontExpand : UInt64 := 0x40000

def vmMixedMap : UInt64 := 0x10000000

/-- The flag that the wrappers call `VM_ALLOC` has no bit. -/
def vmAlloc : UInt64 := 0x0

/-- `VMFlags::contains`. -/
def contains (flags bits : UInt64) : Bool := flags &&& bits == bits

/-- What the flags of an area allow, and whether it is a stack. -/
def rights (flags : UInt64) : Bool × Bool × Bool × Bool :=
  (contains flags vmRead, contains flags vmWrite, contains flags vmExec, contains flags vmStack)

theorem contains_or {bits : UInt64} {i : ℕ} (hi : i < 64)
    (hbits : bits.toBitVec = BitVec.twoPow 64 i) (f g : UInt64) :
    contains (f ||| g) bits = (contains f bits || contains g bits) := by
  have hbit : ∀ f : UInt64, contains f bits = f.toBitVec.getLsbD i := by
    intro f
    have hzero : (0#64 == BitVec.twoPow 64 i) = false := by
      rw [beq_eq_false_iff_ne]
      intro heq
      have := congrArg (·.getLsbD i) heq
      simp [hi] at this
    have hbeq : contains f bits = (f.toBitVec &&& bits.toBitVec == bits.toBitVec) := by
      rw [contains, Bool.eq_iff_iff, beq_iff_eq, beq_iff_eq, ← UInt64.toBitVec_and,
        UInt64.toBitVec_inj]
    rw [hbeq, hbits, BitVec.and_twoPow]
    cases f.toBitVec.getLsbD i with
    | true => simp
    | false => exact hzero
  rw [hbit, hbit, hbit, UInt64.toBitVec_or, BitVec.getLsbD_or]

end Mitosis.KernWrappers

namespace Mitosis.Descriptors.VMADescriptor

open KernWrappers

def isStack (v : VMADescriptor) : Bool := contains v.flags vmStack

/-- The protection that is asked for. -/
def getMmapFlags (v : VMADescriptor) : UInt64 :=
  (if contains v.flags vmRead then 0x1 else 0) ||| (if contains v.flags vmWrite then 0x2 else 0) |||
    (if contains v.flags vmExec then 0x4 else 0) ||| (if v.isStack then 0x02000000 else 0)

end Mitosis.Descriptors.VMADescriptor

namespace Mitosis.KernWrappers

open Support Descriptors
open Resume (Region)

/-! ## Linux -/

namespace MmStruct

/-- A region of whole pages of user space that overlaps no area. -/
def HasRoom (mm : MmStruct) (r : Region) : Prop :=
  (r.start.toNat % 4096 = 0 ∧ r.len.toNat % 4096 = 0) ∧
    (0 < r.len.toNat ∧ r.start.toNat + r.len.toNat ≤ taskSize) ∧
    ∀ z ∈ mm.areas, z.2.vmEnd.toNat ≤ r.start.toNat ∨
      r.start.toNat + r.len.toNat ≤ z.2.vmStart.toNat

instance (mm : MmStruct) (r : Region) : Decidable (mm.HasRoom r) :=
  inferInstanceAs (Decidable (_ ∧ _ ∧ _))

theorem HasRoom.toNat_end {mm : MmStruct} {r : Region} (h : mm.HasRoom r) :
    (r.start + r.len).toNat = r.start.toNat + r.len.toNat := by
  have hle := h.2.1.2
  rw [UInt64.toNat_add]
  exact Nat.mod_eq_of_lt (by unfold taskSize at hle; omega)

end MmStruct

/-- The operations of Linux on an address space that the wrappers call: `do_munmap`,
`vm_mmap` of a private mapping of the file of a handler, whose `mmap` sets the operations of
the area, and `find_vma`.  Where the structure of a new area is put and the protection bits
that are made of flags are its own choice.

What is used of them: unmapping the range of an area frees that area and no other; a region
that has room behind all areas is mapped where it is asked for; the area that starts at an
address is found there; and the flags of a mapping allow what was asked for and are not
those of a stack. -/
structure Kernel where
  alloc : MmStruct → ℕ
  protFlags : UInt64 → UInt64
  pageProt : UInt64 → UInt64
  unmapRegion : MmStruct → UInt64 → UInt64 → MmStruct
  vmMmap : MmStruct → Region → UInt64 → UInt64 × MmStruct
  findVma : MmStruct → UInt64 → Option (ℕ × VmAreaStruct)
  unmaps : ∀ (mm : MmStruct) before z rest, mm.areas = before ++ z :: rest →
    (unmapRegion mm z.2.vmStart z.2.getSz).areas = before ++ rest
  maps : ∀ (mm : MmStruct) r prot, mm.HasRoom r → (∀ z ∈ mm.areas, z.2.vmEnd ≤ r.start) →
    (vmMmap mm r prot).1 = r.start ∧ (vmMmap mm r prot).2.areas = mm.areas ++ [(alloc mm,
      ⟨r.start, r.start + r.len, protFlags prot, pageProt (protFlags prot), true⟩)]
  finds : ∀ mm : MmStruct, ∀ z ∈ mm.areas, findVma mm z.2.vmStart = some z
  allows : ∀ prot, ∀ bits ∈ [vmRead, vmWrite, vmExec],
    contains (protFlags prot) bits = contains prot bits
  noStack : ∀ prot, contains (protFlags prot) vmStack = false

/-! ## Unmapping -/

namespace MmStruct

def unmapArea (k : Kernel) (md : MmStruct) (m : VmAreaStruct) : MmStruct :=
  k.unmapRegion md m.vmStart m.getSz

/-- Unmap all of the areas, while going through them. -/
def unmapSelf (k : Kernel) (mm : MmStruct) : Option MmStruct :=
  mm.getVmaIter.forEach id (unmapArea k) (mm.areas.length + 1) mm

theorem unmapSelf_eq (k : Kernel) (mm : MmStruct) :
    ∃ mm', mm.unmapSelf k = some mm' ∧ mm'.areas = [] := by
  have hbody : ∀ (md : MmStruct) z rest, (z :: rest) <:+ md.areas →
      rest <:+ (md.unmapArea k z.2).areas := by
    rintro md z rest ⟨before, hareas⟩
    exact ⟨before, (k.unmaps md before z rest hareas.symm).symm⟩
  have hfold : ∀ (l : List (ℕ × VmAreaStruct)) (md : MmStruct), md.areas = l →
      (l.foldl (fun md z => md.unmapArea k z.2) md).areas = [] := by
    intro l
    induction l with
    | nil => exact fun md h => h
    | cons z l ih => exact fun md h => ih _ (k.unmaps md [] z l h)
  exact ⟨_, VMAIter.forEach_eq id (unmapArea k) hbody (VMAIter.before_getVmaIter mm)
    (Nat.lt_succ_self _), hfold mm.areas mm rfl⟩

end MmStruct

/-! ## Mapping -/

namespace MmStruct

def setRawFlags (mm : MmStruct) (p : ℕ) (flags : UInt64) : MmStruct where
  areas := mm.areas.map fun z => (z.1, { z.2 with
    vmFlags := if z.1 = p then flags else z.2.vmFlags })
  distinct := by
    rw [List.map_map]
    exact mm.distinct
  nonempty := List.forall_mem_map.mpr mm.nonempty
  sorted := List.pairwise_map.mpr mm.sorted
  aligned := List.forall_mem_map.mpr mm.aligned
  user := List.forall_mem_map.mpr mm.user

end MmStruct

/-- The flags of the area of a child, as they are in the end. -/
def inheritedFlags (k : Kernel) (eager : Bool) (v : VMADescriptor) : UInt64 :=
  let flags := k.protFlags v.getMmapFlags ||| (if v.isStack then vmStack else vmDontExpand)
  if eager then flags ||| vmMixedMap else flags

/-- The protection that is asked for is what the flags of the area allow. -/
theorem contains_getMmapFlags (v : VMADescriptor) :
    contains v.getMmapFlags vmRead = contains v.flags vmRead ∧
      contains v.getMmapFlags vmWrite = contains v.flags vmWrite ∧
      contains v.getMmapFlags vmExec = contains v.flags vmExec := by
  unfold VMADescriptor.getMmapFlags
  generalize contains v.flags vmRead = r
  generalize contains v.flags vmWrite = w
  generalize contains v.flags vmExec = x
  generalize v.isStack = st
  cases r <;> cases w <;> cases x <;> cases st <;> decide

/-- The marks that the wrappers set change no right, and only a stack becomes one. -/
theorem rights_inheritedFlags (k : Kernel) (eager : Bool) (v : VMADescriptor) :
    rights (inheritedFlags k eager v) = rights v.flags := by
  obtain ⟨hread, hwrite, hexec⟩ := contains_getMmapFlags v
  have hmarks : ∀ bits i, i < 64 → bits.toBitVec = BitVec.twoPow 64 i →
      contains vmMixedMap bits = false →
      contains (inheritedFlags k eager v) bits = (contains (k.protFlags v.getMmapFlags) bits ||
        contains (if v.isStack then vmStack else vmDontExpand) bits) := by
    intro bits i hi hbits hmixed
    unfold inheritedFlags
    cases eager with
    | true => simp only [if_true, contains_or hi hbits, hmixed, Bool.or_false]
    | false => simp only [Bool.false_eq_true, if_false, contains_or hi hbits]
  rw [rights, rights, hmarks vmRead 0 (by decide) rfl rfl, hmarks vmWrite 1 (by decide) rfl rfl,
    hmarks vmExec 2 (by decide) rfl rfl, hmarks vmStack 8 (by decide) rfl rfl,
    k.allows _ vmRead (by simp), k.allows _ vmWrite (by simp), k.allows _ vmExec (by simp),
    k.noStack, hread, hwrite, hexec]
  have hstack : v.isStack = contains v.flags vmStack := rfl
  rw [hstack]
  generalize contains v.flags vmRead = r
  generalize contains v.flags vmWrite = w
  generalize contains v.flags vmExec = x
  generalize contains v.flags vmStack = st
  cases r <;> cases w <;> cases x <;> cases st <;> decide

/-- Map one region into the current task, and mark its area. -/
def mapOneRegion (k : Kernel) (eager : Bool) (mm : MmStruct) (vmaMeta : VMADescriptor)
    (nextVma : Option VMADescriptor) : Outcome (Option (ℕ × VmAreaStruct) × MmStruct) := do
  let mmap := fun r => k.vmMmap mm r vmaMeta.getMmapFlags
  match ← (Resume.mapOneRegion (fun _ r => (mmap r).1) [] vmaMeta nextVma).outcome with
  | none => .ok (none, mm)
  | some r =>
    let mm := (mmap r).2
    let (p, vma) ← Outcome.unwrap (k.findVma mm vmaMeta.getStart)
    let flags := vma.vmFlags ||| (if vmaMeta.isStack then vmStack else vmDontExpand)
    let flags := if eager then flags ||| vmMixedMap else flags
    .ok (some (p, { vma with vmFlags := flags }), mm.setRawFlags p flags)

/-! ## One region behind the others -/

/-- The area that a region becomes. -/
def inherited (k : Kernel) (eager : Bool) (v : VMADescriptor) (next : Option VMADescriptor) :
    VmAreaStruct where
  vmStart := v.getStart
  vmEnd := v.getStart + (Resume.regionOf v next).len
  vmFlags := inheritedFlags k eager v
  vmPageProt := k.pageProt (k.protFlags v.getMmapFlags)
  vmOps := true

/-- An area of whole pages of user space. -/
structure Paged (v : VMADescriptor) : Prop where
  start : v.getStart.toNat % 4096 = 0
  stop : v.getEnd.toNat % 4096 = 0
  user : v.getEnd.toNat ≤ taskSize

section Behind

variable {mm : MmStruct} {v : VMADescriptor} {next : Option VMADescriptor}

theorem extension_aligned (hfits : Resume.Fits v next) (hv : Paged v)
    (hnext : ∀ w, next = some w → Paged w) :
    (Resume.extension v next).toNat % 4096 = 0 := by
  cases next with
  | none => rfl
  | some w =>
    have hle := UInt64.le_iff_toNat_le.mp (hfits.before w rfl)
    have hstart := (hnext w rfl).start
    have hstop := hv.stop
    have hgib : (1024 * 1024 * 1024 : UInt64).toNat = 1024 * 1024 * 1024 := rfl
    rw [Resume.extension, Option.elim_some, Resume.toNat_min, hfits.toNat_gap rfl, hgib]
    omega

theorem hasRoom_regionOf (hfits : Resume.Fits v next) (hv : Paged v)
    (hnext : ∀ w, next = some w → w.getStart < w.getEnd ∧ Paged w)
    (hbehind : ∀ z ∈ mm.areas, z.2.vmEnd ≤ v.getStart) : mm.HasRoom (Resume.regionOf v next) := by
  have hlen := hfits.toNat_len
  have hext := extension_aligned hfits hv fun w hw => (hnext w hw).2
  have hne := UInt64.lt_iff_toNat_lt.mp hfits.nonempty
  have hstart := hv.start
  have hstop := hv.stop
  have huser : v.getEnd.toNat + (Resume.extension v next).toNat ≤ taskSize := by
    cases next with
    | none => exact hv.user
    | some w =>
      obtain ⟨hw, hpaged⟩ := hnext w rfl
      have hle := hfits.toNat_extension.2 w rfl
      have hw := UInt64.lt_iff_toNat_lt.mp hw
      have := hpaged.user
      omega
  have hregion : (Resume.regionOf v next).start = v.getStart := rfl
  refine ⟨⟨hstart, ?_⟩, ⟨?_, ?_⟩, fun z hz => Or.inl (UInt64.le_iff_toNat_le.mp (hbehind z hz))⟩
  · split at hlen <;> omega
  · split at hlen <;> omega
  · rw [hregion]
    split at hlen <;> omega

theorem areas_setRawFlags_last {l : List (ℕ × VmAreaStruct)} {z : ℕ × VmAreaStruct}
    (hareas : mm.areas = l ++ [z]) (flags : UInt64) :
    (mm.setRawFlags z.1 flags).areas = l ++ [(z.1, { z.2 with vmFlags := flags })] := by
  have hdistinct := mm.distinct
  rw [hareas, List.map_append, List.nodup_append] at hdistinct
  have hothers : ∀ w ∈ l, (w.1, { w.2 with
      vmFlags := if w.1 = z.1 then flags else w.2.vmFlags }) = w := by
    intro w hw
    rw [if_neg (hdistinct.2.2 w.1 (List.mem_map_of_mem hw) z.1 List.mem_cons_self)]
  change mm.areas.map _ = _
  rw [hareas, List.map_append, List.map_cons, if_pos rfl, List.map_nil,
    List.map_congr_left hothers, List.map_id']

theorem mapOneRegion_behind (k : Kernel) (eager : Bool) (hfits : Resume.Fits v next)
    (hv : Paged v) (hnext : ∀ w, next = some w → w.getStart < w.getEnd ∧ Paged w)
    (hbehind : ∀ z ∈ mm.areas, z.2.vmEnd ≤ v.getStart) :
    ∃ mm', mapOneRegion k eager mm v next =
        .ok (some (k.alloc mm, inherited k eager v next), mm') ∧
      mm'.areas = mm.areas ++ [(k.alloc mm, inherited k eager v next)] := by
  obtain ⟨hplace, hareas⟩ := k.maps mm (Resume.regionOf v next) v.getMmapFlags
    (hasRoom_regionOf hfits hv hnext hbehind) hbehind
  have hstart : (Resume.regionOf v next).start = v.getStart := rfl
  have hmapped : (Resume.mapOneRegion (fun _ r => (k.vmMmap mm r v.getMmapFlags).1) [] v
      next).outcome = .ok (some (Resume.regionOf v next)) := by
    rw [Resume.mapOneRegion_eq hfits.before]
    dsimp only
    rw [hplace, hstart, if_neg (not_not_intro rfl)]
  have hfind := k.finds _ _ (hareas ▸ List.mem_append_right mm.areas List.mem_cons_self)
  refine ⟨(k.vmMmap mm (Resume.regionOf v next) v.getMmapFlags).2.setRawFlags (k.alloc mm)
    (inheritedFlags k eager v), ?_, areas_setRawFlags_last hareas _⟩
  rw [mapOneRegion, hmapped, Outcome.ok_bind]
  dsimp only at hfind ⊢
  rw [hstart] at hfind
  rw [hfind]
  rfl

end Behind

/-! ## A kernel -/

namespace MmStruct

variable {mm : MmStruct} {z : ℕ × VmAreaStruct}

theorem vmStart_ne {before rest : List (ℕ × VmAreaStruct)} (h : mm.areas = before ++ z :: rest) :
    (∀ w ∈ before, w.2.vmStart ≠ z.2.vmStart) ∧ ∀ w ∈ rest, w.2.vmStart ≠ z.2.vmStart := by
  have hlt : mm.areas.Pairwise fun z w => z.2.vmStart < w.2.vmStart :=
    mm.sorted.imp_of_mem fun hz _ hle => UInt64.lt_of_lt_of_le (mm.nonempty _ hz) hle
  rw [h, List.pairwise_append, List.pairwise_cons] at hlt
  obtain ⟨-, ⟨hrest, -⟩, hbefore⟩ := hlt
  exact ⟨fun w hw => UInt64.ne_of_lt (hbefore w hw z List.mem_cons_self),
    fun w hw => (UInt64.ne_of_lt (hrest w hw)).symm⟩

def removeAt (mm : MmStruct) (addrS : UInt64) : MmStruct where
  areas := mm.areas.filter fun z => z.2.vmStart != addrS
  distinct := (List.filter_sublist.map Prod.fst).nodup mm.distinct
  nonempty z hz := mm.nonempty z (List.mem_of_mem_filter hz)
  sorted := mm.sorted.sublist List.filter_sublist
  aligned z hz := mm.aligned z (List.mem_of_mem_filter hz)
  user z hz := mm.user z (List.mem_of_mem_filter hz)

theorem areas_removeAt {before rest : List (ℕ × VmAreaStruct)}
    (h : mm.areas = before ++ z :: rest) :
    (mm.removeAt z.2.vmStart).areas = before ++ rest := by
  obtain ⟨hbefore, hrest⟩ := vmStart_ne h
  change mm.areas.filter _ = _
  rw [h, List.filter_append, List.filter_cons_of_neg (by simp),
    List.filter_eq_self.mpr fun w hw => bne_iff_ne.mpr (hbefore w hw),
    List.filter_eq_self.mpr fun w hw => bne_iff_ne.mpr (hrest w hw)]

def areaAt (mm : MmStruct) (addr : UInt64) : Option (ℕ × VmAreaStruct) :=
  mm.areas.find? fun z => z.2.vmStart == addr

theorem areaAt_of_mem (hz : z ∈ mm.areas) :
    mm.areaAt z.2.vmStart = some z := by
  obtain ⟨before, rest, hareas⟩ := List.append_of_mem hz
  have hnone : before.find? (fun w => w.2.vmStart == z.2.vmStart) = none :=
    List.find?_eq_none.mpr fun w hw heq => (vmStart_ne hareas).1 w hw (beq_iff_eq.mp heq)
  rw [areaAt, hareas, List.find?_append, hnone, Option.none_or,
    List.find?_cons, beq_self_eq_true]

/-- The area of a region, behind all others. -/
def append (mm : MmStruct) (r : Region) (h : mm.HasRoom r)
    (hbehind : ∀ z ∈ mm.areas, z.2.vmEnd ≤ r.start) (p : ℕ) (hp : p ∉ mm.areas.map Prod.fst)
    (flags prot : UInt64) : MmStruct where
  areas := mm.areas ++ [(p, ⟨r.start, r.start + r.len, flags, prot, true⟩)]
  distinct := by
    rw [List.map_append, List.map_singleton, ← List.concat_eq_append]
    exact mm.distinct.concat hp
  nonempty := by
    have hend := h.toNat_end
    have hpos := h.2.1.1
    rw [List.forall_mem_append, List.forall_mem_singleton]
    refine ⟨mm.nonempty, UInt64.lt_iff_toNat_lt.mpr ?_⟩
    dsimp only
    omega
  sorted := by
    rw [List.pairwise_append]
    refine ⟨mm.sorted, List.pairwise_singleton _ _, fun z hz => ?_⟩
    exact List.forall_mem_singleton.mpr (hbehind z hz)
  aligned := by
    have hend := h.toNat_end
    obtain ⟨hstart, hlen⟩ := h.1
    rw [List.forall_mem_append, List.forall_mem_singleton]
    refine ⟨mm.aligned, hstart, ?_⟩
    dsimp only
    omega
  user := by
    rw [List.forall_mem_append, List.forall_mem_singleton]
    exact ⟨mm.user, h.toNat_end.trans_le h.2.1.2⟩

end MmStruct

/-- The bits that a mapping takes from its protection. -/
def protBits (prot : UInt64) : UInt64 := prot &&& 0x7

theorem contains_protBits (prot : UInt64) {bits : UInt64} (h : 0x7 &&& bits = bits) :
    contains (protBits prot) bits = contains prot bits := by
  rw [contains, contains, protBits, UInt64.and_assoc, h]

/-- A kernel that maps a region where it was asked for if there is room behind all areas, and
says another place without mapping it otherwise. -/
def Kernel.simple (alloc : MmStruct → ℕ) (fresh : ∀ mm, alloc mm ∉ mm.areas.map Prod.fst)
    (pageProt : UInt64 → UInt64) : Kernel where
  alloc := alloc
  protFlags := protBits
  pageProt := pageProt
  unmapRegion mm addrS _ := mm.removeAt addrS
  vmMmap mm r prot :=
    if h : mm.HasRoom r ∧ ∀ z ∈ mm.areas, z.2.vmEnd ≤ r.start then
      (r.start, mm.append r h.1 h.2 (alloc mm) (fresh mm) (protBits prot)
        (pageProt (protBits prot)))
    else (r.start + 4096, mm)
  findVma := MmStruct.areaAt
  unmaps _ _ _ _ hareas := MmStruct.areas_removeAt hareas
  maps mm r prot hroom hbehind := by
    rw [dif_pos ⟨hroom, hbehind⟩]
    exact ⟨rfl, rfl⟩
  finds _ _ hz := MmStruct.areaAt_of_mem hz
  allows prot := by
    rw [List.forall_mem_cons, List.forall_mem_cons, List.forall_mem_singleton]
    exact ⟨contains_protBits prot rfl, contains_protBits prot rfl, contains_protBits prot rfl⟩
  noStack prot := by
    have hmask : (0x7 : UInt64) &&& vmStack = 0 := rfl
    rw [contains, protBits, UInt64.and_assoc, hmask, UInt64.and_zero]
    rfl

end Mitosis.KernWrappers
