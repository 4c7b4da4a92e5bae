import Mitosis.ShadowProcess.Walks
import Mitosis.Support.Machine

/-!
# Prepared processes as snapshots

A child READs the frames of its parent long after the prepare, while the processes of the
parent's machine go on writing, forking and unmapping.  A READ should find what the parent
had in its page when it was prepared.

READs go through the DC target that is bound to the prepared process, and the process is
known by its target here.  Unregistering drops the shadow process first, page by page, and
the target last, so the READs of the children end only after the pages are given back.

Linux is any kernel that does what `MemoryKernel` asks for.
-/

namespace Mitosis.Shadow

open Support Descriptors RemoteMapping

/-- A prepared process: its shadow process, the pages that it has not given back, and
whether it was unregistered. -/
structure Bundle where
  cow : Bool
  process : ShadowProcess
  pages : List ℕ
  dropping : Bool

namespace Bundle

/-- The frames that the shadow process holds along with the processes that map them. -/
def held (b : Bundle) : Multiset ℕ := if b.cow then b.pages else 0

def owned (b : Bundle) : Multiset ℕ := if b.cow then 0 else b.pages

theorem held_add_owned (b : Bundle) : b.held + b.owned = (b.pages : Multiset ℕ) := by
  unfold held owned
  cases b.cow <;> simp

end Bundle

/-- The machine of the parents: its memory and the processes that were prepared. -/
structure ParentNode (α : Type) where
  memory : ParentMemory α
  bundles : AList fun _ : ℕ => Bundle
  nextTarget : ℕ

/-- A step of the kernel that manages the memory, one of the shadow processes, or a READ. -/
inductive ParentAction {α : Type} (K : MemoryKernel ProcessPage ℕ α) where
  | kernel (a : K.Step)
  | prepareCow (pid : ℕ) (space : AddressSpace) (regs : RegDescriptor) (rdma : RDMADescriptor)
  | prepareCopy (pid : ℕ) (space : AddressSpace) (alloc : ℕ → Option ℕ) (regs : RegDescriptor)
      (rdma : RDMADescriptor)
  | unregister (target : ℕ)
  | dropPage (target : ℕ)
  | dropTarget (target : ℕ)
  | read (target frame : ℕ)

inductive ParentOutput (α : Type) where
  | done
  | refused
  | prepared (target : ℕ)
  | read (content : Option α)
deriving DecidableEq

namespace ParentNode

variable {α : Type}

/-- A machine on which nothing runs yet. -/
def boot (content : ℕ → α) (ofFile : ℕ → Bool) : ParentNode α := ⟨.unused content ofFile, ∅, 0⟩

/-- Register a shadow process with the next target. -/
def register (s : ParentNode α) (memory : ParentMemory α) (cow : Bool) (sp : ShadowProcess) :
    ParentNode α :=
  ⟨memory, s.bundles.insert s.nextTarget ⟨cow, sp, sp.shadowPagetable, false⟩,
    s.nextTarget + 1⟩

/-- `COW4KPage::drop` and `Copy4KPage::drop`. -/
def giveBack (cow : Bool) (mem : ParentMemory α) (f : ℕ) : ParentMemory α :=
  if cow then (mem.putPage f).freeRmap f else mem.putPage f

def held (s : ParentNode α) : Multiset ℕ := total Bundle.held s.bundles

def owned (s : ParentNode α) : Multiset ℕ := total Bundle.owned s.bundles

end ParentNode

open ParentNode

/-- The machine of the parents.  A prepare is refused if the walk is not the one of the
process, or if the allocator gives frames that are in use; a prepare that finds no memory
panics and leaves nothing. -/
def parentMachine {α : Type} (K : MemoryKernel ProcessPage ℕ α) :
    Machine (ParentNode α) (ParentAction K) (ParentOutput α) where
  step s
    | .kernel a => ({ s with memory := K.step s.memory a }, .done)
    | .prepareCow pid space regs rdma =>
      if Walks s.memory pid space then
        (s.register (cowMemory pid space s.memory) true (newCow space regs rdma),
          .prepared s.nextTarget)
      else (s, .refused)
    | .prepareCopy pid space alloc regs rdma =>
      match newCopy alloc space regs rdma with
      | .error _ => (s, .refused)
      | .ok sp =>
        if Walks s.memory pid space ∧ (∀ f ∈ sp.shadowPagetable, s.memory.Free f) ∧
            sp.shadowPagetable.Nodup then
          (s.register (copyMemory alloc space s.memory) false sp, .prepared s.nextTarget)
        else (s, .refused)
    | .unregister target =>
      match s.bundles.lookup target with
      | none => (s, .refused)
      | some b => ({ s with bundles := s.bundles.insert target { b with dropping := true } },
          .done)
    | .dropPage target =>
      match s.bundles.lookup target with
      | none => (s, .refused)
      | some b =>
        match b.dropping, b.pages with
        | true, f :: rest =>
          ({ s with
              memory := giveBack b.cow s.memory f
              bundles := s.bundles.insert target { b with pages := rest } }, .done)
        | _, _ => (s, .refused)
    | .dropTarget target =>
      match s.bundles.lookup target with
      | none => (s, .refused)
      | some b =>
        if b.dropping = true ∧ b.pages = [] then
          ({ s with bundles := s.bundles.erase target }, .done)
        else (s, .refused)
    | .read target frame =>
      (s, .read (if target ∈ s.bundles then some (s.memory.content frame) else none))

section Steps

variable {α : Type} {K : MemoryKernel ProcessPage ℕ α} {s : ParentNode α} {mem : ParentMemory α}
  {held owned : Multiset ℕ}

/-- What a prepare makes of the memory: the pages of the shadow process are kept, and no
frame that is in use has changed. -/
structure Prepared (s : ParentNode α) (mem : ParentMemory α) (b : Bundle) : Prop where
  sound : mem.Sound (b.held + s.held) (b.owned + s.owned)
  ofFile : mem.ofFile = s.memory.ofFile
  content : ∀ f, ¬ s.memory.Free f → mem.content f = s.memory.content f

/-- Every frame is accounted for, and the next target is a new one. -/
structure Accounted (s : ParentNode α) : Prop where
  sound : s.memory.Sound s.held s.owned
  fresh : ∀ t ∈ s.bundles, t < s.nextTarget

variable {pid : ℕ} {space : AddressSpace} {alloc : ℕ → Option ℕ} {regs : RegDescriptor}
  {rdma : RDMADescriptor}

theorem accounted_boot (content : ℕ → α) (ofFile : ℕ → Bool) :
    Accounted (boot content ofFile) :=
  ⟨PagedMemory.sound_unused content ofFile, fun _ h => absurd h (AList.notMem_empty _)⟩

theorem Accounted.notMem (h : Accounted s) : s.nextTarget ∉ s.bundles :=
  fun hmem => lt_irrefl _ (h.fresh _ hmem)

theorem Accounted.prepareCow (h : Accounted s)
    (hwalk : Walks s.memory pid space) (regs : RegDescriptor) (rdma : RDMADescriptor) :
    Prepared s (cowMemory pid space s.memory)
      ⟨true, newCow space regs rdma, (newCow space regs rdma).shadowPagetable, false⟩ := by
  obtain ⟨hsound, hmoved⟩ := cowProtect_foldl space.visits h.sound
    (fun v hv hpres => hwalk.frame_eq hv hpres)
  refine ⟨?_, hmoved.ofFile, fun f _ => congrFun hmoved.content f⟩
  rw [newCow_pages]
  simpa [cowMemory, Bundle.held, Bundle.owned] using hsound

theorem Walks.not_free (hwalk : Walks mem pid space)
    (h : mem.Sound held owned) {v : Area × PteEntry} (hv : v ∈ space.visits)
    (hpres : v.2.present = true) : ¬ mem.Free v.2.frame := by
  intro hfree
  have hpos := PagedMemory.mappings_pos (hwalk v hv hpres)
  rw [(h.unused_of_free hfree).1] at hpos
  exact absurd hpos (lt_irrefl 0)

theorem Accounted.prepareCopy (h : Accounted s) {sp : ShadowProcess}
    (hnew : newCopy alloc space regs rdma = .ok sp) (hwalk : Walks s.memory pid space)
    (hfree : ∀ f ∈ sp.shadowPagetable, s.memory.Free f) (hnodup : sp.shadowPagetable.Nodup) :
    Prepared s (copyMemory alloc space s.memory) ⟨false, sp, sp.shadowPagetable, false⟩ ∧
      ∀ v ∈ space.visits, v.2.present = true →
        (copyMemory alloc space s.memory).content (copyWord alloc v.1 v.2) =
          s.memory.content v.2.frame := by
  rw [newCopy_pages hnew] at hfree hnodup
  have hall : ∀ v ∈ space.visits, v.2.present = true → ∃ copied, alloc v.2.addr = some copied := by
    rintro ⟨a, p⟩ hv hpres
    obtain ⟨ha, hp⟩ := AddressSpace.mem_visits.mp hv
    exact (newCopy_tables hnew).1 a ha p hp hpres
  have hspares := spares_foldl s.memory hall
  have hkept : ∀ v ∈ space.visits, v.2.present = true →
      v.2.frame ∉ copyPages alloc space.visits := fun v hv hpres hmem =>
    hwalk.not_free h.sound hv hpres (hfree _ hmem)
  refine ⟨⟨?_, hspares.ofFile, fun f hf => hspares.content f fun hmem => hf (hfree f hmem)⟩,
    fun v hv hpres => content_foldl_copyPage hall hkept hnodup hv hpres⟩
  rw [newCopy_pages hnew]
  simpa [copyMemory, Bundle.held, Bundle.owned] using
    sound_foldl_copyPage h.sound hall hfree hnodup

theorem Accounted.step_cases (h : Accounted s) (a : ParentAction K) :
    let s' := ((parentMachine K).step s a).1
    s' = s ∨
    (∃ k, s' = { s with memory := K.step s.memory k }) ∨
    (∃ mem b, Prepared s mem b ∧
      s' = ⟨mem, s.bundles.insert s.nextTarget b, s.nextTarget + 1⟩) ∨
    (∃ t b, s.bundles.lookup t = some b ∧
      s' = { s with bundles := s.bundles.insert t { b with dropping := true } }) ∨
    (∃ t b f rest, a = .dropPage t ∧ s.bundles.lookup t = some b ∧ b.pages = f :: rest ∧
      s' = { s with
        memory := giveBack b.cow s.memory f
        bundles := s.bundles.insert t { b with pages := rest } }) ∨
    ∃ t b, s.bundles.lookup t = some b ∧ b.pages = [] ∧
      s' = { s with bundles := s.bundles.erase t } := by
  cases a with
  | kernel k => exact Or.inr (Or.inl ⟨k, rfl⟩)
  | prepareCow pid space regs rdma =>
    simp only [parentMachine]
    split_ifs with hwalk
    · exact Or.inr (Or.inr (Or.inl ⟨_, _, h.prepareCow hwalk regs rdma, rfl⟩))
    · exact Or.inl rfl
  | prepareCopy pid space alloc regs rdma =>
    simp only [parentMachine]
    cases hnew : newCopy alloc space regs rdma with
    | error stop => exact Or.inl rfl
    | ok sp =>
      dsimp only
      split_ifs with hok
      · exact Or.inr (Or.inr (Or.inl
          ⟨_, _, (h.prepareCopy hnew hok.1 hok.2.1 hok.2.2).1, rfl⟩))
      · exact Or.inl rfl
  | unregister t =>
    simp only [parentMachine]
    cases hb : s.bundles.lookup t with
    | none => exact Or.inl rfl
    | some b => exact Or.inr (Or.inr (Or.inr (Or.inl ⟨t, b, hb, rfl⟩)))
  | dropPage t =>
    simp only [parentMachine]
    cases hb : s.bundles.lookup t with
    | none => exact Or.inl rfl
    | some b =>
      dsimp only
      split
      · next f rest _ hpages =>
          exact Or.inr (Or.inr (Or.inr (Or.inr (Or.inl ⟨t, b, f, rest, rfl, hb, hpages, rfl⟩))))
      · exact Or.inl rfl
  | dropTarget t =>
    simp only [parentMachine]
    cases hb : s.bundles.lookup t with
    | none => exact Or.inl rfl
    | some b =>
      dsimp only
      split_ifs with hdone
      · exact Or.inr (Or.inr (Or.inr (Or.inr (Or.inr ⟨t, b, hb, hdone.2, rfl⟩))))
      · exact Or.inl rfl
  | read t f => exact Or.inl rfl

theorem Accounted.step (h : Accounted s) (a : ParentAction K) :
    Accounted ((parentMachine K).step s a).1 := by
  rcases h.step_cases a with heq | ⟨k, heq⟩ | ⟨mem, b, hp, heq⟩ | ⟨t, b, hb, heq⟩ |
    ⟨t, b, f, rest, -, hb, hpages, heq⟩ | ⟨t, b, hb, hpages, heq⟩
  · rw [heq]
    exact h
  · rw [heq]
    exact ⟨K.sound h.sound k, h.fresh⟩
  · rw [heq]
    refine ⟨?_, fun t ht => ?_⟩
    · simp only [ParentNode.held, ParentNode.owned, total_insert, erase_of_notMem h.notMem]
      exact hp.sound
    · rcases (AList.mem_insert _).mp ht with rfl | ht
      · exact Nat.lt_succ_self _
      · exact (h.fresh t ht).trans (Nat.lt_succ_self _)
  · have hmem := mem_of_lookup hb
    rw [heq]
    refine ⟨?_, fun u hu => h.fresh u ((mem_insert_of_mem hmem _ u).mp hu)⟩
    have hsound := h.sound
    simp only [ParentNode.held, ParentNode.owned, total_of_lookup _ hb] at hsound
    simpa only [ParentNode.held, ParentNode.owned, total_insert, Bundle.held, Bundle.owned]
      using hsound
  · have hmem := mem_of_lookup hb
    rw [heq]
    refine ⟨?_, fun u hu => h.fresh u ((mem_insert_of_mem hmem _ u).mp hu)⟩
    have hsound := h.sound
    simp only [ParentNode.held, ParentNode.owned, total_of_lookup _ hb, Bundle.held,
      Bundle.owned, hpages] at hsound
    simp only [ParentNode.held, ParentNode.owned, total_insert, Bundle.held, Bundle.owned,
      giveBack]
    cases hcow : b.cow with
    | true =>
      simp only [hcow, if_true, ← Multiset.cons_coe, Multiset.cons_add] at hsound ⊢
      exact hsound.release
    | false =>
      simp only [hcow, Bool.false_eq_true, if_false, ← Multiset.cons_coe,
        Multiset.cons_add] at hsound ⊢
      exact hsound.disown
  · rw [heq]
    refine ⟨?_, fun u hu => h.fresh u (AList.mem_erase.mp hu).2⟩
    have hsound := h.sound
    simp only [ParentNode.held, ParentNode.owned, total_of_lookup _ hb, Bundle.held,
      Bundle.owned, hpages] at hsound
    simpa [ParentNode.held, ParentNode.owned] using hsound

theorem accounted_run (content : ℕ → α) (ofFile : ℕ → Bool) (as : List (ParentAction K)) :
    Accounted ((parentMachine K).run (boot content ofFile) as) := by
  have hall : (parentMachine K).Always (fun _ _ => True) (boot content ofFile) as :=
    Machine.always_of_forall (fun _ _ => trivial) _ as
  exact Machine.invariant Accounted (fun _ a h _ => h.step a) (accounted_boot content ofFile) hall

/-! ## What a READ finds -/

/-- The target is there, and the frame is still kept with this content. -/
def Holds (t f : ℕ) (c : α) (s : ParentNode α) : Prop :=
  ∃ b, s.bundles.lookup t = some b ∧ f ∈ b.pages ∧ s.memory.ofFile f = false ∧
    s.memory.content f = c

variable {t f : ℕ} {c : α}

theorem mem_kept_of_lookup {b : Bundle} (hb : s.bundles.lookup t = some b)
    (hf : f ∈ b.pages) : f ∈ s.held + s.owned := by
  have hpages : f ∈ b.held + b.owned := by
    rw [b.held_add_owned]
    exact hf
  rw [ParentNode.held, ParentNode.owned, total_of_lookup _ hb, total_of_lookup _ hb]
  rcases Multiset.mem_add.mp hpages with hheld | howned
  · exact Multiset.mem_add.mpr (Or.inl (Multiset.mem_add.mpr (Or.inl hheld)))
  · exact Multiset.mem_add.mpr (Or.inr (Multiset.mem_add.mpr (Or.inl howned)))

theorem content_giveBack (cow : Bool) (mem : ParentMemory α) (f : ℕ) :
    (giveBack cow mem f).content = mem.content ∧ (giveBack cow mem f).ofFile = mem.ofFile := by
  cases cow <;> exact ⟨rfl, rfl⟩

/-- A kept frame stays as it is until the shadow process gives a page back. -/
theorem Holds.step (hs : Accounted s) (h : Holds t f c s)
    {a : ParentAction K} (ha : a ≠ .dropPage t) : Holds t f c ((parentMachine K).step s a).1 := by
  obtain ⟨b, hb, hf, hfile, hcontent⟩ := h
  have hkept := mem_kept_of_lookup hb hf
  have hused : ¬ s.memory.Free f := fun hfree =>
    (hs.sound.refcount_pos hfile hkept).ne' hfree.1
  rcases hs.step_cases a with heq | ⟨k, heq⟩ | ⟨mem, b', hp, heq⟩ | ⟨u, b', hu, heq⟩ |
    ⟨u, b', g, rest, rfl, hu, -, heq⟩ | ⟨u, b', hu, hpages, heq⟩
  · rw [heq]
    exact ⟨b, hb, hf, hfile, hcontent⟩
  · rw [heq]
    refine ⟨b, hb, hf, ?_, ?_⟩
    · rw [K.ofFile]
      exact hfile
    · exact (K.content_eq hs.sound hfile hkept k).trans hcontent
  · rw [heq]
    have hne : t ≠ s.nextTarget := by
      rintro rfl
      exact hs.notMem (mem_of_lookup hb)
    refine ⟨b, ?_, hf, ?_, (hp.content f hused).trans hcontent⟩
    · rw [lookup_insert_eq, if_neg hne, hb]
    · rw [hp.ofFile]
      exact hfile
  · rw [heq]
    by_cases htu : t = u
    · subst htu
      obtain rfl := Option.some.inj (hu.symm.trans hb)
      exact ⟨_, AList.lookup_insert _, hf, hfile, hcontent⟩
    · exact ⟨b, by rw [lookup_insert_eq, if_neg htu, hb], hf, hfile, hcontent⟩
  · rw [heq]
    have htu : t ≠ u := fun htu => ha (htu ▸ rfl)
    obtain ⟨hsame, hfiles⟩ := content_giveBack b'.cow s.memory g
    refine ⟨b, by rw [lookup_insert_eq, if_neg htu, hb], hf, ?_, ?_⟩
    · rw [hfiles]
      exact hfile
    · rw [hsame]
      exact hcontent
  · rw [heq]
    have htu : t ≠ u := by
      rintro rfl
      obtain rfl := Option.some.inj (hu.symm.trans hb)
      rw [hpages] at hf
      cases hf
    exact ⟨b, by rw [lookup_erase_eq, if_neg htu, hb], hf, hfile, hcontent⟩

theorem Holds.read (h : Holds t f c s) :
    ((parentMachine K).step s (.read t f)).2 = .read (some c) := by
  obtain ⟨b, hb, -, -, hcontent⟩ := h
  simp only [parentMachine, if_pos (mem_of_lookup hb), hcontent]

theorem Holds.reads (hs : Accounted s) (h : Holds t f c s)
    {as : List (ParentAction K)} (has : .dropPage t ∉ as) :
    (parentMachine K).Always
      (fun u a => a = .read t f → ((parentMachine K).step u a).2 = .read (some c)) s as := by
  have hnot : (parentMachine K).Always (fun _ a => a ≠ .dropPage t) s as := by
    refine Machine.always_of_forall_mem (fun a ha heq => ?_) s
    exact has (heq ▸ ha)
  refine Machine.always_of_invariant (fun u => Accounted u ∧ Holds t f c u) ?_ ⟨hs, h⟩ hnot
  rintro u a ⟨hu, hholds⟩ ha
  refine ⟨⟨hu.step a, hholds.step hu ha⟩, ?_⟩
  rintro rfl
  exact hholds.read

/-! ## Snapshots -/

theorem lookup_register (s : ParentNode α) (mem : ParentMemory α) (cow : Bool)
    (sp : ShadowProcess) :
    (s.register mem cow sp).bundles.lookup s.nextTarget =
      some ⟨cow, sp, sp.shadowPagetable, false⟩ :=
  AList.lookup_insert _

theorem step_prepareCow {t : ℕ}
    (h : ((parentMachine K).step s (.prepareCow pid space regs rdma)).2 = .prepared t) :
    t = s.nextTarget ∧ Walks s.memory pid space ∧
      ((parentMachine K).step s (.prepareCow pid space regs rdma)).1 =
        s.register (cowMemory pid space s.memory) true (newCow space regs rdma) := by
  simp only [parentMachine] at h ⊢
  split_ifs at h ⊢ with hwalk
  cases h
  exact ⟨rfl, hwalk, rfl⟩

theorem step_prepareCopy {t : ℕ}
    (h : ((parentMachine K).step s (.prepareCopy pid space alloc regs rdma)).2 = .prepared t) :
    t = s.nextTarget ∧ ∃ sp, newCopy alloc space regs rdma = .ok sp ∧
      Walks s.memory pid space ∧ (∀ f ∈ sp.shadowPagetable, s.memory.Free f) ∧
      sp.shadowPagetable.Nodup ∧
      ((parentMachine K).step s (.prepareCopy pid space alloc regs rdma)).1 =
        s.register (copyMemory alloc space s.memory) false sp := by
  simp only [parentMachine] at h ⊢
  cases hnew : newCopy alloc space regs rdma with
  | error stop =>
    rw [hnew] at h
    cases h
  | ok sp =>
    rw [hnew] at h
    dsimp only at h ⊢
    split_ifs at h ⊢ with hok
    cases h
    exact ⟨rfl, sp, rfl, hok.1, hok.2.1, hok.2.2, rfl⟩

theorem Accounted.holds_prepareCow (h : Accounted s) {t : ℕ}
    (hprepared : ((parentMachine K).step s (.prepareCow pid space regs rdma)).2 = .prepared t)
    {a : Area} {p : PteEntry} (ha : a ∈ space.areas) (hp : p ∈ a.ptes)
    (hpres : p.present = true) (hwrite : hasWritePermission a.vma = true)
    (hfile : s.memory.ofFile p.frame = false) :
    ∃ c, sees s.memory pid p.addr = some c ∧
      Holds t p.frame c ((parentMachine K).step s (.prepareCow pid space regs rdma)).1 := by
  obtain ⟨rfl, hwalk, hstep⟩ := step_prepareCow hprepared
  have hv : (a, p) ∈ space.visits := AddressSpace.mem_visits.mpr ⟨ha, hp⟩
  obtain ⟨-, hfiles, hsame⟩ := h.prepareCow hwalk regs rdma
  have hmem : p.frame ∈ (newCow space regs rdma).shadowPagetable := by
    rw [newCow_pages]
    exact List.mem_map.mpr ⟨(a, p), List.mem_filter.mpr ⟨hv, by simp [hpres, hwrite]⟩, rfl⟩
  refine ⟨_, hwalk.sees_eq hv hpres, ?_⟩
  rw [hstep]
  refine ⟨_, lookup_register _ _ _ _, hmem, ?_, hsame _ (hwalk.not_free h.sound hv hpres)⟩
  exact (congrFun hfiles _).trans hfile

theorem Accounted.holds_prepareCopy (h : Accounted s) {t : ℕ}
    (halloc : AllocatesPages alloc)
    (hprepared :
      ((parentMachine K).step s (.prepareCopy pid space alloc regs rdma)).2 = .prepared t)
    {a : Area} {p : PteEntry} (ha : a ∈ space.areas) (hp : p ∈ a.ptes)
    (hpres : p.present = true) :
    ∃ c, sees s.memory pid p.addr = some c ∧
      Holds t (PhysAddr.decode (copyWord alloc a p)) c
        ((parentMachine K).step s (.prepareCopy pid space alloc regs rdma)).1 := by
  obtain ⟨rfl, sp, hnew, hwalk, hfree, hnodup, hstep⟩ := step_prepareCopy hprepared
  have hv : (a, p) ∈ space.visits := AddressSpace.mem_visits.mpr ⟨ha, hp⟩
  obtain ⟨⟨-, hfiles, -⟩, hcopies⟩ := h.prepareCopy hnew hwalk hfree hnodup
  have hmem : copyWord alloc a p ∈ sp.shadowPagetable := by
    rw [newCopy_pages hnew]
    exact List.mem_map.mpr ⟨(a, p), List.mem_filter.mpr ⟨hv, hpres⟩, rfl⟩
  obtain ⟨copied, hcopied⟩ := (newCopy_tables hnew).1 a ha p hp hpres
  have hword : copyWord alloc a p = copied := by rw [copyWord, hcopied, Option.getD_some]
  obtain ⟨-, haligned, hlt⟩ := halloc p.addr copied hcopied
  refine ⟨_, hwalk.sees_eq hv hpres, ?_⟩
  rw [hstep, hword, PhysAddr.decode_of_aligned (by omega) hlt, ← hword]
  refine ⟨_, lookup_register _ _ _ _, hmem, ?_, hcopies _ hv hpres⟩
  exact (congrFun hfiles _).trans (hfree _ hmem).2

abbrev sampleMemoryKernel : MemoryKernel ProcessPage ℕ ℕ := copyOnWrite

/-- A process touches a page, which then has the content 7. -/
def sampleTouch : List (ParentAction sampleMemoryKernel) :=
  [.kernel (.touch ⟨1, 0x10000000000⟩ 0x5000 7)]

def sampleSpace : AddressSpace := ⟨[pageArea], List.pairwise_singleton _ _⟩

def samplePage : PteEntry := ⟨0x10000000000, 0x5067⟩

/-- The process writes to its page and unmaps it, and a new page gets the frame that was
freed. -/
def sampleWrites : List (ParentAction sampleMemoryKernel) :=
  [.kernel (.write ⟨1, 0x10000000000⟩ (fun _ => 8) 0x6000), .read 0 0x5000,
    .kernel (.unmap ⟨1, 0x10000000000⟩), .kernel (.touch ⟨2, 0⟩ 0x6000 9), .read 0 0x5000]

/-- Copy: the same, for every page that the process had. -/
theorem copy_snapshot_reads (content : ℕ → α) (ofFile : ℕ → Bool) (as bs : List (ParentAction K))
    (pid : ℕ) (space : AddressSpace) (alloc : ℕ → Option ℕ) (regs : RegDescriptor)
    (rdma : RDMADescriptor) (t : ℕ) (halloc : AllocatesPages alloc)
    (hprepared : ((parentMachine K).step ((parentMachine K).run (boot content ofFile) as)
      (.prepareCopy pid space alloc regs rdma)).2 = .prepared t)
    (hbs : .dropPage t ∉ bs) :
    let s := (parentMachine K).run (boot content ofFile) as
    ∀ a ∈ space.areas, ∀ p ∈ a.ptes, p.present = true →
      (parentMachine K).Always
        (fun u act => act = .read t (PhysAddr.decode (copyWord alloc a p)) →
          ((parentMachine K).step u act).2 = .read (sees s.memory pid p.addr))
        ((parentMachine K).step s (.prepareCopy pid space alloc regs rdma)).1 bs := by
  intro s a ha p hp hpres
  have hs : Accounted s := accounted_run content ofFile as
  obtain ⟨c, hsees, hholds⟩ := hs.holds_prepareCopy halloc hprepared ha hp hpres
  rw [hsees]
  exact hholds.reads (hs.step _) hbs

theorem copy_snapshot_reads_one_page :
    let s := (parentMachine sampleMemoryKernel).run (boot (fun _ => 0) fun _ => false) sampleTouch
    (parentMachine sampleMemoryKernel).Always
      (fun u act =>
        act = .read 0 (PhysAddr.decode (copyWord (fun _ => some 0x8000) pageArea samplePage)) →
        ((parentMachine sampleMemoryKernel).step u act).2 = .read (sees s.memory 1 samplePage.addr))
      ((parentMachine sampleMemoryKernel).step s
        (.prepareCopy 1 sampleSpace (fun _ => some 0x8000) sampleRegs sampleRdma)).1
      sampleWrites :=
  copy_snapshot_reads (fun _ => 0) (fun _ => false) sampleTouch sampleWrites 1 sampleSpace
    (fun _ => some 0x8000) sampleRegs sampleRdma 0
    (fun _ _ h => Option.some.inj h ▸ by decide) (by decide +kernel) (by simp [sampleWrites])
    pageArea List.mem_cons_self samplePage List.mem_cons_self (by decide)

/-- The pages are given back before the target is, so a READ that comes between the two
finds what somebody else has put into the frame. -/
example : (parentMachine sampleMemoryKernel).outputs (boot (fun _ => 0) fun _ => false)
      (sampleTouch ++ [.prepareCow 1 sampleSpace sampleRegs sampleRdma,
        .kernel (.unmap ⟨1, 0x10000000000⟩), .read 0 0x5000, .unregister 0, .dropPage 0,
        .kernel (.touch ⟨2, 0⟩ 0x5000 9), .read 0 0x5000, .dropTarget 0, .read 0 0x5000]) =
      [.done, .prepared 0, .done, .read (some 7), .done, .done, .done, .read (some 9), .done,
        .read none] := by
  decide +kernel

/-! ## What the prepared processes cost -/

/-- How often a frame is kept is how often it is among the pages of the prepared
processes. -/
theorem count_held_add_count_owned (s : ParentNode α) (f : ℕ) :
    s.held.count f + s.owned.count f = tally (fun b => b.pages.count f) s.bundles := by
  rw [ParentNode.held, ParentNode.owned, count_total, count_total, ← tally_add]
  congr 1
  funext b
  rw [← Multiset.count_add, b.held_add_owned, Multiset.coe_count]

/-- In every state that the machine can reach, a frame that is not of a file is free if
and only if no page of a process leads to it and no prepared process keeps it: neither
prepare nor unregister leaks a frame or frees one that is in use. -/
theorem free_iff_unused (content : ℕ → α) (ofFile : ℕ → Bool) (as : List (ParentAction K))
    (f : ℕ) :
    let s := (parentMachine K).run (boot content ofFile) as
    s.memory.ofFile f = false →
    (s.memory.Free f ↔
      (∀ k m, s.memory.mapped.lookup k = some m → m.frame ≠ f) ∧
        ∀ t b, s.bundles.lookup t = some b → f ∉ b.pages) := by
  intro s hfile
  have hs : Accounted s := accounted_run content ofFile as
  constructor
  · intro hfree
    obtain ⟨hzero, hheld, howned⟩ := hs.sound.unused_of_free hfree
    refine ⟨fun k m hk heq => ?_, fun t b hb hmem => ?_⟩
    · have hpos := PagedMemory.mappings_pos hk
      rw [heq, hzero] at hpos
      exact absurd hpos (lt_irrefl 0)
    · exact (Multiset.mem_add.mp (mem_kept_of_lookup hb hmem)).elim hheld howned
  · rintro ⟨hmaps, hbundles⟩
    have hkept := count_held_add_count_owned s f
    rw [tally_eq_zero fun t b hb => List.count_eq_zero.mpr (hbundles t b hb)] at hkept
    have hrefs := hs.sound.references f hfile
    rw [PagedMemory.mappings_eq_zero hmaps] at hrefs
    exact ⟨by omega, hfile⟩

theorem free_iff_unused_after_drop :
    let s := (parentMachine sampleMemoryKernel).run (boot (fun _ => 0) fun _ => false)
      (sampleTouch ++ [.prepareCow 1 sampleSpace sampleRegs sampleRdma,
        .kernel (.unmap ⟨1, 0x10000000000⟩), .unregister 0, .dropPage 0])
    s.memory.Free 0x5000 ↔
      (∀ k m, s.memory.mapped.lookup k = some m → m.frame ≠ 0x5000) ∧
        ∀ t b, s.bundles.lookup t = some b → 0x5000 ∉ b.pages :=
  free_iff_unused (fun _ => 0) (fun _ => false) _ 0x5000 (by decide +kernel)

end Steps

end Mitosis.Shadow
