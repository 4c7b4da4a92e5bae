import Mitosis.ShadowProcess.Fork
import Mitosis.Support.CopyOnWrite

/-!
# What the walks do to the memory

Preparing a process walks its page table.  In copy-on-write mode the walk takes the frame
of each present page of the areas that may be written, and clears the write bit of the
page; in copy mode it copies each present page to a new frame.  What the walks leave in the
memory of the machine is said here for a whole address space: which frames are kept, and
that the process sees what it saw.
-/

namespace Mitosis.Shadow

open Support Descriptors RemoteMapping

/-- A virtual page of some process of the machine. -/
structure ProcessPage where
  pid : ℕ
  addr : ℕ
deriving DecidableEq, Repr

abbrev ParentMemory (α : Type) := PagedMemory ProcessPage ℕ α

def PteEntry.frame (p : PteEntry) : ℕ := pmemGetPhyFromPte p.pte

def PteEntry.writable (p : PteEntry) : Bool := pmemCheckPteWrite p.pte != 0

/-- The visits of the walk, area by area. -/
def AddressSpace.visits (space : AddressSpace) : List (Area × PteEntry) :=
  space.areas.flatMap fun a => a.ptes.map (Prod.mk a)

variable {space : AddressSpace}

theorem AddressSpace.mem_visits {a : Area} {p : PteEntry} :
    (a, p) ∈ space.visits ↔ a ∈ space.areas ∧ p ∈ a.ptes := by
  simp only [visits, List.mem_flatMap, List.mem_map, Prod.mk.injEq]
  constructor
  · rintro ⟨_, ha, _, hp, rfl, rfl⟩
    exact ⟨ha, hp⟩
  · rintro ⟨ha, hp⟩
    exact ⟨a, ha, p, hp, rfl, rfl⟩

section Walk

variable {α : Type}

/-- The address space is the one of the process. -/
def Walks (mem : ParentMemory α) (pid : ℕ) (space : AddressSpace) : Prop :=
  ∀ v ∈ space.visits, v.2.present = true →
    mem.mapped.lookup ⟨pid, v.2.addr⟩ = some ⟨v.2.frame, v.2.writable⟩

instance (mem : ParentMemory α) (pid : ℕ) (space : AddressSpace) :
    Decidable (Walks mem pid space) :=
  inferInstanceAs (Decidable (∀ v ∈ space.visits, _ → _))

/-- What a process sees in one of its pages. -/
def sees (mem : ParentMemory α) (pid addr : ℕ) : Option α :=
  (mem.mapped.lookup ⟨pid, addr⟩).map fun m => mem.content m.frame

/-! ## The two walks and the memory -/

/-- What `VMACOWPTGenerator::handle_pte_entry` does to the memory: `COW4KPage::new` takes
the frame and `pmem_clear_pte_write` the write bit. -/
def cowProtect (pid : ℕ) (mem : ParentMemory α) (v : Area × PteEntry) : ParentMemory α :=
  if v.2.present && hasWritePermission v.1.vma then
    ((mem.getPage v.2.frame).dupRmap v.2.frame).protect ⟨pid, v.2.addr⟩
  else mem

def cowMemory (pid : ℕ) (space : AddressSpace) (mem : ParentMemory α) : ParentMemory α :=
  space.visits.foldl (cowProtect pid) mem

/-- What `VMACopyPTGenerator::handle_pte_entry` does to the memory: `Copy4KPage::new`
allocates a frame and copies the page of the process. -/
def copyPage (alloc : ℕ → Option ℕ) (mem : ParentMemory α) (v : Area × PteEntry) :
    ParentMemory α :=
  if v.2.present then
    match alloc v.2.addr with
    | none => mem
    | some copied => (mem.getPage copied).setContent copied (mem.content v.2.frame)
  else mem

def copyMemory (alloc : ℕ → Option ℕ) (space : AddressSpace) (mem : ParentMemory α) :
    ParentMemory α :=
  space.visits.foldl (copyPage alloc) mem

def cowPages (vs : List (Area × PteEntry)) : List ℕ :=
  (vs.filter fun v => v.2.present && hasWritePermission v.1.vma).map fun v => v.2.frame

def copyPages (alloc : ℕ → Option ℕ) (vs : List (Area × PteEntry)) : List ℕ :=
  (vs.filter fun v => v.2.present).map fun v => copyWord alloc v.1 v.2

theorem cowHandlePteEntry_inner (a : Area) (g : Generated) (ps : List PteEntry) :
    (ps.foldl (cowHandlePteEntry a) g).inner =
      g.inner ++ cowPages (ps.map (Prod.mk a)) := by
  induction ps generalizing g with
  | nil => simp [cowPages]
  | cons p ps ih =>
    rw [List.foldl_cons, ih]
    by_cases hp : 0 < pmemGetPhyFromPte p.pte
    · cases hw : hasWritePermission a.vma <;>
        simp [cowHandlePteEntry, cowPages, PteEntry.present, PteEntry.frame, hp, hw]
    · simp [cowHandlePteEntry, cowPages, PteEntry.present, hp]

theorem cowGenerate_inner (as : List Area) (inner : List ℕ) :
    (cowGenerate as inner).2 =
      inner ++ cowPages (as.flatMap fun a => a.ptes.map (Prod.mk a)) := by
  induction as generalizing inner with
  | nil => simp [cowGenerate, cowPages]
  | cons a as ih =>
    simp only [cowGenerate, ih, cowHandlePteEntry_inner]
    simp [cowPages]

theorem newCow_pages (space : AddressSpace) (regs : RegDescriptor) (rdma : RDMADescriptor) :
    (newCow space regs rdma).shadowPagetable = cowPages space.visits :=
  (cowGenerate_inner space.areas []).trans (List.nil_append _)

theorem copyWalk_inner {alloc : ℕ → Option ℕ} {a : Area} {ps : List PteEntry}
    {g g' : Generated} (h : copyWalk alloc a ps g = .ok g') :
    g'.inner = g.inner ++ copyPages alloc (ps.map (Prod.mk a)) := by
  induction ps generalizing g with
  | nil =>
    cases h
    simp [copyPages]
  | cons p ps ih =>
    rw [copyWalk, Outcome.bind_eq_ok] at h
    obtain ⟨g₁, hp, hps⟩ := h
    rw [ih hps]
    rw [copyHandlePteEntry] at hp
    split at hp
    · next hpos =>
        rw [Outcome.bind_eq_ok] at hp
        obtain ⟨copied, hcopied, heq⟩ := hp
        rw [Outcome.unwrap_eq_ok] at hcopied
        cases heq
        simp [copyPages, PteEntry.present, hpos, copyWord, hcopied]
    · next hzero =>
        cases hp
        simp [copyPages, PteEntry.present, hzero]

theorem copyGenerate_inner {alloc : ℕ → Option ℕ} {as : List Area} {inner inner' : List ℕ}
    {tables : List CompactPageTable}
    (h : copyGenerate alloc as inner = .ok (tables, inner')) :
    inner' = inner ++ copyPages alloc (as.flatMap fun a => a.ptes.map (Prod.mk a)) := by
  induction as generalizing inner tables with
  | nil =>
    cases h
    simp [copyPages]
  | cons a as ih =>
    rw [copyGenerate, Outcome.bind_eq_ok] at h
    obtain ⟨g, hg, hrest⟩ := h
    rw [Outcome.bind_eq_ok] at hrest
    obtain ⟨⟨tables', inner''⟩, htables, heq⟩ := hrest
    cases heq
    rw [ih htables, copyWalk_inner hg]
    simp [copyPages]

theorem newCopy_pages {alloc : ℕ → Option ℕ} {regs : RegDescriptor}
    {rdma : RDMADescriptor} {sp : ShadowProcess}
    (h : newCopy alloc space regs rdma = .ok sp) :
    sp.shadowPagetable = copyPages alloc space.visits := by
  rw [newCopy, Outcome.bind_eq_ok] at h
  obtain ⟨⟨tables, inner⟩, hgen, heq⟩ := h
  cases heq
  exact (copyGenerate_inner hgen).trans (List.nil_append _)

/-- No page leads elsewhere and no content has changed. -/
structure Unmoved (mem mem' : ParentMemory α) : Prop where
  content : mem'.content = mem.content
  ofFile : mem'.ofFile = mem.ofFile
  frames : ∀ k, (mem'.mapped.lookup k).map Mapping.frame =
    (mem.mapped.lookup k).map Mapping.frame

variable {pid : ℕ} {v : Area × PteEntry}

theorem Unmoved.refl (mem : ParentMemory α) : Unmoved mem mem := ⟨rfl, rfl, fun _ => rfl⟩

theorem Unmoved.trans {mem mem' mem'' : ParentMemory α} (h : Unmoved mem mem')
    (h' : Unmoved mem' mem'') : Unmoved mem mem'' :=
  ⟨h'.content.trans h.content, h'.ofFile.trans h.ofFile,
    fun k => (h'.frames k).trans (h.frames k)⟩

theorem unmoved_protect (mem : ParentMemory α) (k : ProcessPage) :
    Unmoved mem (mem.protect k) := by
  unfold PagedMemory.protect
  cases hk : mem.mapped.lookup k with
  | none => exact .refl mem
  | some m =>
    refine ⟨rfl, rfl, fun k' => ?_⟩
    rw [PagedMemory.lookup_setEntry]
    split
    · next heq =>
        rw [heq, hk]
        rfl
    · rfl

theorem unmoved_cowProtect (pid : ℕ) (mem : ParentMemory α) (v : Area × PteEntry) :
    Unmoved mem (cowProtect pid mem v) := by
  unfold cowProtect
  split
  · have hcounted : Unmoved mem ((mem.getPage v.2.frame).dupRmap v.2.frame) :=
      ⟨rfl, rfl, fun _ => rfl⟩
    exact hcounted.trans (unmoved_protect _ _)
  · exact .refl mem

/-- The walk in copy-on-write mode: it changes no content, and what it takes is held. -/
theorem cowProtect_foldl {mem : ParentMemory α} {held owned : Multiset ℕ}
    (vs : List (Area × PteEntry)) (h : mem.Sound held owned)
    (hvs : ∀ v ∈ vs, v.2.present = true →
      (mem.mapped.lookup ⟨pid, v.2.addr⟩).map Mapping.frame = some v.2.frame) :
    (vs.foldl (cowProtect pid) mem).Sound (cowPages vs + held) owned ∧
      Unmoved mem (vs.foldl (cowProtect pid) mem) := by
  induction vs generalizing mem held with
  | nil => exact ⟨by simpa [cowPages] using h, .refl mem⟩
  | cons v vs ih =>
    have hmoved := unmoved_cowProtect pid mem v
    have hrest : ∀ u ∈ vs, u.2.present = true →
        ((cowProtect pid mem v).mapped.lookup ⟨pid, u.2.addr⟩).map Mapping.frame =
          some u.2.frame := fun u hu hpres =>
      (hmoved.frames _).trans (hvs u (List.mem_cons_of_mem _ hu) hpres)
    by_cases hv : (v.2.present && hasWritePermission v.1.vma) = true
    · have hpres : v.2.present = true := (Bool.and_eq_true_iff.mp hv).1
      obtain ⟨m, hm, hframe⟩ := Option.map_eq_some_iff.mp
        (hvs v List.mem_cons_self hpres)
      have hstep : (cowProtect pid mem v).Sound (v.2.frame ::ₘ held) owned := by
        rw [cowProtect, if_pos hv, ← hframe]
        exact h.hold_protect hm
      obtain ⟨hsound, hunmoved⟩ := ih hstep hrest
      refine ⟨?_, hmoved.trans hunmoved⟩
      have hpages : cowPages (v :: vs) = v.2.frame :: cowPages vs := by
        simp [cowPages, hv]
      rw [List.foldl_cons, hpages, ← Multiset.cons_coe, Multiset.cons_add, ← Multiset.add_cons]
      exact hsound
    · have hsame : cowProtect pid mem v = mem := if_neg hv
      rw [hsame] at hrest
      obtain ⟨hsound, hunmoved⟩ := ih h hrest
      have hpages : cowPages (v :: vs) = cowPages vs := by
        simp [cowPages, hv]
      rw [List.foldl_cons, hsame, hpages]
      exact ⟨hsound, hunmoved⟩

theorem Walks.frame_eq {mem : ParentMemory α}
    (h : Walks mem pid space) (hv : v ∈ space.visits)
    (hpres : v.2.present = true) :
    (mem.mapped.lookup ⟨pid, v.2.addr⟩).map Mapping.frame = some v.2.frame := by
  rw [h v hv hpres]
  rfl

theorem Walks.sees_eq {mem : ParentMemory α}
    (h : Walks mem pid space) (hv : v ∈ space.visits)
    (hpres : v.2.present = true) :
    sees mem pid v.2.addr = some (mem.content v.2.frame) := by
  rw [sees, h v hv hpres]
  rfl

/-! ## The copying walk -/

variable {alloc : ℕ → Option ℕ} {mem mem' mem'' : ParentMemory α} {vs : List (Area × PteEntry)}

/-- All frames but these are as they were. -/
structure Spares (fs : List ℕ) (mem mem' : ParentMemory α) : Prop where
  content : ∀ f ∉ fs, mem'.content f = mem.content f
  refcount : ∀ f ∉ fs, mem'.refcount f = mem.refcount f
  ofFile : mem'.ofFile = mem.ofFile

theorem Spares.append {fs gs : List ℕ} (h : Spares fs mem mem') (h' : Spares gs mem' mem'') :
    Spares (fs ++ gs) mem mem'' where
  content f hf := by
    rw [List.mem_append, not_or] at hf
    exact (h'.content f hf.2).trans (h.content f hf.1)
  refcount f hf := by
    rw [List.mem_append, not_or] at hf
    exact (h'.refcount f hf.2).trans (h.refcount f hf.1)
  ofFile := h'.ofFile.trans h.ofFile

theorem Spares.free {fs : List ℕ} (h : Spares fs mem mem') {f : ℕ} (hf : f ∉ fs) :
    mem'.Free f ↔ mem.Free f := by
  rw [PagedMemory.Free, PagedMemory.Free, h.refcount f hf, h.ofFile]

theorem copyPages_cons (v : Area × PteEntry) (vs : List (Area × PteEntry)) :
    copyPages alloc (v :: vs) = copyPages alloc [v] ++ copyPages alloc vs := by
  rw [copyPages, copyPages, copyPages, ← List.map_append, ← List.filter_append]
  rfl

theorem copyPages_of_present (hv : v.2.present = true) :
    copyPages alloc [v] = [copyWord alloc v.1 v.2] := by
  simp [copyPages, hv]

theorem copyPages_of_absent (hv : ¬ v.2.present = true) :
    copyPages alloc [v] = [] := by
  simp [copyPages, hv]

theorem copyPage_of_present (hv : v.2.present = true)
    (halloc : ∃ copied, alloc v.2.addr = some copied) :
    copyPage alloc mem v =
      (mem.getPage (copyWord alloc v.1 v.2)).setContent (copyWord alloc v.1 v.2)
        (mem.content v.2.frame) := by
  obtain ⟨copied, hcopied⟩ := halloc
  rw [copyPage, if_pos hv, copyWord, hcopied]
  rfl

theorem spares_copyPage (mem : ParentMemory α)
    (halloc : v.2.present = true → ∃ copied, alloc v.2.addr = some copied) :
    Spares (copyPages alloc [v]) mem (copyPage alloc mem v) := by
  by_cases hv : v.2.present = true
  · rw [copyPage_of_present hv (halloc hv), copyPages_of_present hv]
    refine ⟨fun f hf => ?_, fun f hf => ?_, rfl⟩
    · exact Function.update_of_ne (fun heq => hf (List.mem_singleton.mpr heq)) _ _
    · exact Function.update_of_ne (fun heq => hf (List.mem_singleton.mpr heq)) _ _
  · rw [copyPage, if_neg hv]
    exact ⟨fun _ _ => rfl, fun _ _ => rfl, rfl⟩

theorem spares_foldl (mem : ParentMemory α)
    (halloc : ∀ v ∈ vs, v.2.present = true → ∃ copied, alloc v.2.addr = some copied) :
    Spares (copyPages alloc vs) mem (vs.foldl (copyPage alloc) mem) := by
  induction vs generalizing mem with
  | nil => exact ⟨fun _ _ => rfl, fun _ _ => rfl, rfl⟩
  | cons v vs ih =>
    rw [copyPages_cons]
    exact (spares_copyPage mem (halloc v List.mem_cons_self)).append
      (ih _ fun u hu => halloc u (List.mem_cons_of_mem _ hu))

theorem sound_foldl_copyPage {held owned : Multiset ℕ} (h : mem.Sound held owned)
    (halloc : ∀ v ∈ vs, v.2.present = true → ∃ copied, alloc v.2.addr = some copied)
    (hfree : ∀ f ∈ copyPages alloc vs, mem.Free f) (hnodup : (copyPages alloc vs).Nodup) :
    (vs.foldl (copyPage alloc) mem).Sound held (copyPages alloc vs + owned) := by
  induction vs generalizing mem owned with
  | nil => simpa [copyPages] using h
  | cons v vs ih =>
    have hrest := fun u hu => halloc u (List.mem_cons_of_mem v hu)
    have hspares := spares_copyPage mem (halloc v List.mem_cons_self)
    rw [copyPages_cons, List.nodup_append] at hnodup
    rw [copyPages_cons] at hfree ⊢
    obtain ⟨-, hnodup', hdisjoint⟩ := hnodup
    have hsound : (copyPage alloc mem v).Sound held (copyPages alloc [v] + owned) := by
      by_cases hv : v.2.present = true
      · rw [copyPage_of_present hv (halloc v List.mem_cons_self hv), copyPages_of_present hv]
        refine (h.own ?_).setContent _ _
        exact hfree _ (List.mem_append_left _ (by simp [copyPages_of_present hv]))
      · rw [copyPage, if_neg hv, copyPages_of_absent hv]
        simpa using h
    have hfree' : ∀ f ∈ copyPages alloc vs, (copyPage alloc mem v).Free f := fun f hf =>
      (hspares.free fun hmem => hdisjoint f hmem f hf rfl).mpr
        (hfree f (List.mem_append_right _ hf))
    have hall := ih hsound hrest hfree' hnodup'
    rw [List.foldl_cons, ← Multiset.coe_add, add_assoc, add_left_comm]
    exact hall

theorem content_foldl_copyPage
    (halloc : ∀ v ∈ vs, v.2.present = true → ∃ copied, alloc v.2.addr = some copied)
    (hkept : ∀ v ∈ vs, v.2.present = true → v.2.frame ∉ copyPages alloc vs)
    (hnodup : (copyPages alloc vs).Nodup) (hv : v ∈ vs)
    (hpres : v.2.present = true) :
    (vs.foldl (copyPage alloc) mem).content (copyWord alloc v.1 v.2) =
      mem.content v.2.frame := by
  induction vs generalizing mem with
  | nil => cases hv
  | cons u vs ih =>
    have hrest := fun w hw => halloc w (List.mem_cons_of_mem u hw)
    rw [copyPages_cons, List.nodup_append] at hnodup
    rw [copyPages_cons] at hkept
    obtain ⟨-, hnodup', hdisjoint⟩ := hnodup
    rcases List.mem_cons.mp hv with rfl | hmem
    · -- the rest of the walk spares the copy
      have hnot : copyWord alloc v.1 v.2 ∉ copyPages alloc vs := fun hmem =>
        hdisjoint _ (by simp [copyPages_of_present hpres]) _ hmem rfl
      rw [List.foldl_cons, (spares_foldl _ hrest).content _ hnot,
        copyPage_of_present hpres (halloc v List.mem_cons_self hpres)]
      exact Function.update_self _ _ _
    · have hframe := hkept v (List.mem_cons_of_mem u hmem) hpres
      rw [List.mem_append, not_or] at hframe
      rw [List.foldl_cons, ih hrest
        (fun w hw hp hin => hkept w (List.mem_cons_of_mem u hw) hp (List.mem_append_right _ hin))
        hnodup' hmem]
      exact (spares_copyPage mem (halloc u List.mem_cons_self)).content _ hframe.1

end Walk

end Mitosis.Shadow
