import Mathlib.Algebra.Order.Group.Multiset
import Mitosis.Support.KeyedMap

/-!
# Copy-on-write memory

Virtual pages are mapped to frames, and a frame counts its references and its mappings.
The kernel that manages them is not given: what is asked of it is that it keeps the
counters, and that it writes to a frame in place only if there is one mapping of it.

Others may keep a frame.  A holder takes a reference and a mapping count, as a page does
that leads there, so that no write finds the only mapping.  An owner has the one reference
of a frame that nobody maps.  Either way the content of the frame cannot change, whatever
the processes that map it do.

The last section has a kernel of which all this is true.
-/

namespace Mitosis.Support

/-- Where a virtual page leads, and whether the hardware lets writes through. -/
structure Mapping (φ : Type*) where
  frame : φ
  writable : Bool
deriving DecidableEq

/-- The frames with their counters and contents, and the virtual pages. -/
structure PagedMemory (κ φ α : Type*) where
  content : φ → α
  refcount : φ → ℕ
  mapcount : φ → ℕ
  ofFile : φ → Bool
  mapped : AList fun _ : κ => Mapping φ

namespace PagedMemory

variable {κ φ α : Type*} [DecidableEq φ]

/-! ## Operations -/

def setContent (s : PagedMemory κ φ α) (f : φ) (a : α) : PagedMemory κ φ α :=
  { s with content := Function.update s.content f a }

/-- A reference more. -/
def getPage (s : PagedMemory κ φ α) (f : φ) : PagedMemory κ φ α :=
  { s with refcount := Function.update s.refcount f (s.refcount f + 1) }

def putPage (s : PagedMemory κ φ α) (f : φ) : PagedMemory κ φ α :=
  { s with refcount := Function.update s.refcount f (s.refcount f - 1) }

/-- A mapping more. -/
def dupRmap (s : PagedMemory κ φ α) (f : φ) : PagedMemory κ φ α :=
  { s with mapcount := Function.update s.mapcount f (s.mapcount f + 1) }

def freeRmap (s : PagedMemory κ φ α) (f : φ) : PagedMemory κ φ α :=
  { s with mapcount := Function.update s.mapcount f (s.mapcount f - 1) }

section Counters

variable (s : PagedMemory κ φ α) (f g : φ)

theorem refcount_getPage :
    (s.getPage f).refcount g = s.refcount g + if g = f then 1 else 0 := by
  simp only [getPage, Function.update_apply]
  split <;> simp [*]

theorem refcount_putPage :
    (s.putPage f).refcount g = s.refcount g - if g = f then 1 else 0 := by
  simp only [putPage, Function.update_apply]
  split <;> simp [*]

theorem mapcount_dupRmap :
    (s.dupRmap f).mapcount g = s.mapcount g + if g = f then 1 else 0 := by
  simp only [dupRmap, Function.update_apply]
  split <;> simp [*]

theorem mapcount_freeRmap :
    (s.freeRmap f).mapcount g = s.mapcount g - if g = f then 1 else 0 := by
  simp only [freeRmap, Function.update_apply]
  split <;> simp [*]

end Counters

variable [DecidableEq κ]

/-- Set the entry of a page, whatever it was. -/
def setEntry (s : PagedMemory κ φ α) (k : κ) (m : Mapping φ) : PagedMemory κ φ α :=
  { s with mapped := s.mapped.insert k m }

def mapPage (s : PagedMemory κ φ α) (k : κ) (m : Mapping φ) : PagedMemory κ φ α :=
  ((s.getPage m.frame).dupRmap m.frame).setEntry k m

/-- Unmap a page, which leads to `m`. -/
def unmapPage (s : PagedMemory κ φ α) (k : κ) (m : Mapping φ) : PagedMemory κ φ α :=
  { (s.freeRmap m.frame).putPage m.frame with mapped := s.mapped.erase k }

/-- Clear the write bit of a page. -/
def protect (s : PagedMemory κ φ α) (k : κ) : PagedMemory κ φ α :=
  match s.mapped.lookup k with
  | none => s
  | some m => s.setEntry k ⟨m.frame, false⟩

/-- Nobody refers to the frame, and it is not of a file. -/
def Free (s : PagedMemory κ φ α) (f : φ) : Prop := s.refcount f = 0 ∧ s.ofFile f = false

instance (s : PagedMemory κ φ α) (f : φ) : Decidable (s.Free f) :=
  inferInstanceAs (Decidable (_ ∧ _))

/-- Memory that nobody uses yet. -/
def unused (content : φ → α) (ofFile : φ → Bool) : PagedMemory κ φ α :=
  ⟨content, fun _ => 0, fun _ => 0, ofFile, ∅⟩

/-! ## The counters -/

/-- How many pages lead to a frame. -/
def mappings (s : PagedMemory κ φ α) (f : φ) : ℕ :=
  tally (fun m => if f = m.frame then 1 else 0) s.mapped

/-- The counters of the frames that are not of a file count the pages that lead there,
the holders and the owners.  A writable page is the only one that leads to its frame, and
nobody holds that; an owned frame is not mapped. -/
structure Sound (s : PagedMemory κ φ α) (held owned : Multiset φ) : Prop where
  references : ∀ f, s.ofFile f = false →
    s.refcount f = s.mappings f + held.count f + owned.count f
  maps : ∀ f, s.ofFile f = false → s.mapcount f = s.mappings f + held.count f
  exclusive : ∀ k m, s.mapped.lookup k = some m → m.writable = true →
    s.ofFile m.frame = false → s.mappings m.frame = 1 ∧ m.frame ∉ held
  unmapped : ∀ f ∈ owned, s.ofFile f = false ∧ s.mappings f = 0

section Mappings

variable {s : PagedMemory κ φ α} {k k' : κ} {m m' : Mapping φ}

theorem mappings_pos (h : s.mapped.lookup k = some m) : 0 < s.mappings m.frame := by
  have hle := le_tally_of_lookup (fun m' => if m.frame = m'.frame then 1 else 0) h
  rw [if_pos rfl] at hle
  exact hle

theorem mappings_eq_zero {f : φ} (h : ∀ k m, s.mapped.lookup k = some m → m.frame ≠ f) :
    s.mappings f = 0 :=
  tally_eq_zero fun k m hk => if_neg (h k m hk).symm

theorem two_le_mappings (h : s.mapped.lookup k = some m) (h' : s.mapped.lookup k' = some m')
    (hne : k' ≠ k) (hframe : m.frame = m'.frame) : 2 ≤ s.mappings m.frame := by
  have herase : (s.mapped.erase k).lookup k' = some m' := by
    rw [lookup_erase_eq, if_neg hne, h']
  have hle := le_tally_of_lookup (fun m' => if m.frame = m'.frame then 1 else 0) herase
  rw [mappings, tally_of_lookup _ h, if_pos rfl]
  rw [if_pos hframe] at hle
  omega

theorem mappings_setEntry (h : s.mapped.lookup k = some m) (w : Bool) (f : φ) :
    (s.setEntry k ⟨m.frame, w⟩).mappings f = s.mappings f :=
  Nat.add_right_cancel (tally_insert_of_lookup (fun m => if f = m.frame then 1 else 0) h
    ⟨m.frame, w⟩)

theorem mappings_mapPage (h : k ∉ s.mapped) (m : Mapping φ) (f : φ) :
    (s.mapPage k m).mappings f = s.mappings f + if f = m.frame then 1 else 0 :=
  tally_insert_of_notMem _ h m

theorem mappings_unmapPage (h : s.mapped.lookup k = some m) (f : φ) :
    s.mappings f = (if f = m.frame then 1 else 0) + (s.unmapPage k m).mappings f :=
  tally_of_lookup _ h

theorem refcount_mapPage (f : φ) :
    (s.mapPage k m).refcount f = s.refcount f + if f = m.frame then 1 else 0 :=
  refcount_getPage s m.frame f

theorem mapcount_mapPage (f : φ) :
    (s.mapPage k m).mapcount f = s.mapcount f + if f = m.frame then 1 else 0 :=
  mapcount_dupRmap s m.frame f

theorem refcount_unmapPage (f : φ) :
    (s.unmapPage k m).refcount f = s.refcount f - if f = m.frame then 1 else 0 :=
  refcount_putPage s m.frame f

theorem mapcount_unmapPage (f : φ) :
    (s.unmapPage k m).mapcount f = s.mapcount f - if f = m.frame then 1 else 0 :=
  mapcount_freeRmap s m.frame f

omit [DecidableEq φ] in
theorem lookup_setEntry (k' : κ) :
    (s.setEntry k m).mapped.lookup k' = if k' = k then some m else s.mapped.lookup k' :=
  lookup_insert_eq _ _ _ _

theorem lookup_mapPage (k' : κ) :
    (s.mapPage k m).mapped.lookup k' = if k' = k then some m else s.mapped.lookup k' :=
  lookup_insert_eq _ _ _ _

theorem lookup_unmapPage (k' : κ) :
    (s.unmapPage k m).mapped.lookup k' = if k' = k then none else s.mapped.lookup k' :=
  lookup_erase_eq _ _ _

end Mappings

/-! ## What each operation keeps -/

theorem sound_unused (content : φ → α) (ofFile : φ → Bool) :
    (unused content ofFile : PagedMemory κ φ α).Sound 0 0 where
  references _ _ := rfl
  maps _ _ := rfl
  exclusive _ _ hk := nomatch hk
  unmapped _ hmem := absurd hmem (Multiset.notMem_zero _)

namespace Sound

variable {s : PagedMemory κ φ α} {held owned : Multiset φ} {k : κ} {m : Mapping φ} {f : φ}

theorem setContent (h : s.Sound held owned) (f : φ) (a : α) :
    (s.setContent f a).Sound held owned :=
  ⟨h.references, h.maps, h.exclusive, h.unmapped⟩

theorem refcount_pos (h : s.Sound held owned) (hf : s.ofFile f = false)
    (hkept : f ∈ held + owned) : 0 < s.refcount f := by
  have hcount : 0 < (held + owned).count f := Multiset.count_pos.mpr hkept
  rw [Multiset.count_add] at hcount
  have hrefs := h.references f hf
  omega

theorem unused_of_free (h : s.Sound held owned) (hf : s.Free f) :
    s.mappings f = 0 ∧ f ∉ held ∧ f ∉ owned := by
  have hrefs := h.references f hf.2
  rw [hf.1] at hrefs
  refine ⟨by omega, ?_, ?_⟩
  · exact Multiset.count_eq_zero.mp (by omega)
  · exact Multiset.count_eq_zero.mp (by omega)

theorem writable_eq_false (h : s.Sound held owned) {k' : κ} {m' : Mapping φ}
    (hk : s.mapped.lookup k = some m) (hk' : s.mapped.lookup k' = some m') (hne : k' ≠ k)
    (hframe : m.frame = m'.frame) (hf : s.ofFile m.frame = false) : m.writable = false := by
  rw [Bool.eq_false_iff]
  intro hw
  have hone := (h.exclusive k m hk hw hf).1
  have htwo := two_le_mappings hk hk' hne hframe
  omega

/-- A page that was not mapped may lead to a frame that nobody uses. -/
theorem mapPage (h : s.Sound held owned) (hk : k ∉ s.mapped) (hfree : s.Free f) :
    (s.mapPage k ⟨f, true⟩).Sound held owned := by
  obtain ⟨hzero, hheld, howned⟩ := h.unused_of_free hfree
  constructor
  case references =>
    intro g hg
    rw [refcount_mapPage, mappings_mapPage hk, h.references g hg]
    omega
  case maps =>
    intro g hg
    rw [mapcount_mapPage, mappings_mapPage hk, h.maps g hg]
    omega
  case exclusive =>
    intro k' m' hk' hw hf
    rw [lookup_mapPage] at hk'
    rw [mappings_mapPage hk]
    split at hk'
    · obtain rfl := Option.some.inj hk'
      rw [hzero, if_pos rfl]
      exact ⟨rfl, hheld⟩
    · have hne : m'.frame ≠ f := by
        rintro rfl
        exact (mappings_pos hk').ne' hzero
      rw [if_neg hne]
      exact h.exclusive k' m' hk' hw hf
  case unmapped =>
    intro g hmem
    have hne : g ≠ f := by
      rintro rfl
      exact howned hmem
    rw [mappings_mapPage hk, if_neg hne]
    exact h.unmapped g hmem

theorem unmapPage (h : s.Sound held owned) (hk : s.mapped.lookup k = some m) :
    (s.unmapPage k m).Sound held owned where
  references f hf := by
    have hrefs := h.references f hf
    rw [mappings_unmapPage hk] at hrefs
    rw [refcount_unmapPage, hrefs]
    omega
  maps f hf := by
    have hmaps := h.maps f hf
    rw [mappings_unmapPage hk] at hmaps
    rw [mapcount_unmapPage, hmaps]
    omega
  exclusive k' m' hk' hw hf := by
    rw [lookup_unmapPage] at hk'
    split at hk'
    · cases hk'
    · next hne =>
        obtain ⟨hone, hheld⟩ := h.exclusive k' m' hk' hw hf
        refine ⟨?_, hheld⟩
        have hframe : m'.frame ≠ m.frame := by
          intro heq
          have htwo := two_le_mappings hk' hk (Ne.symm hne) heq
          omega
        rw [mappings_unmapPage hk, if_neg hframe] at hone
        omega
  unmapped f hmem := by
    obtain ⟨hfile, hzero⟩ := h.unmapped f hmem
    rw [mappings_unmapPage hk] at hzero
    exact ⟨hfile, by omega⟩

/-- The write bit of a page may be cleared; it may be set if the frame is for this page
alone. -/
theorem setEntry (h : s.Sound held owned) (hk : s.mapped.lookup k = some m) (w : Bool)
    (hw : w = true → s.mappings m.frame = 1 ∧ m.frame ∉ held) :
    (s.setEntry k ⟨m.frame, w⟩).Sound held owned where
  references f hf := by
    rw [mappings_setEntry hk]
    exact h.references f hf
  maps f hf := by
    rw [mappings_setEntry hk]
    exact h.maps f hf
  exclusive k' m' hk' hw' hf := by
    rw [mappings_setEntry hk]
    rcases lookup_insert_cases hk' with ⟨-, rfl⟩ | hold
    · exact hw hw'
    · exact h.exclusive k' m' hold hw' hf
  unmapped f hmem := by
    rw [mappings_setEntry hk]
    exact h.unmapped f hmem

theorem readOnly_setEntry (h : s.Sound held owned) (hk : s.mapped.lookup k = some m) {k' : κ}
    {m' : Mapping φ} (hk' : (s.setEntry k ⟨m.frame, false⟩).mapped.lookup k' = some m')
    (hframe : m'.frame = m.frame) (hf : s.ofFile m'.frame = false) : m'.writable = false := by
  rw [lookup_setEntry] at hk'
  split at hk'
  · rw [← Option.some.inj hk']
  · next hne => exact h.writable_eq_false hk' hk (Ne.symm hne) hframe hf

theorem hold (h : s.Sound held owned) (f : φ)
    (hread : ∀ k m, s.mapped.lookup k = some m → m.frame = f → s.ofFile m.frame = false →
      m.writable = false) :
    ((s.getPage f).dupRmap f).Sound (f ::ₘ held) owned where
  references g hg := by
    have hrefs := h.references g hg
    have hget := refcount_getPage s f g
    rw [Multiset.count_cons]
    exact hget.trans (by rw [hrefs]; exact (Nat.add_right_comm _ _ _).trans (by ac_rfl))
  maps g hg := by
    rw [Multiset.count_cons, ← Nat.add_assoc]
    exact (mapcount_dupRmap (s.getPage f) f g).trans (congrArg (· + _) (h.maps g hg))
  exclusive k m hk hw hf := by
    obtain ⟨hone, hheld⟩ := h.exclusive k m hk hw hf
    refine ⟨hone, fun hmem => ?_⟩
    rcases Multiset.mem_cons.mp hmem with heq | hmem
    · rw [hread k m hk heq hf] at hw
      cases hw
    · exact hheld hmem
  unmapped := h.unmapped

theorem hold_protect (h : s.Sound held owned) (hk : s.mapped.lookup k = some m) :
    (((s.getPage m.frame).dupRmap m.frame).protect k).Sound (m.frame ::ₘ held) owned := by
  have hread : (s.setEntry k ⟨m.frame, false⟩).Sound held owned :=
    h.setEntry hk false Bool.false_ne_true.elim
  have heq : ((s.getPage m.frame).dupRmap m.frame).protect k =
      ((s.setEntry k ⟨m.frame, false⟩).getPage m.frame).dupRmap m.frame := by
    simp only [protect, getPage, dupRmap, hk]
    rfl
  rw [heq]
  exact hread.hold m.frame fun k' m' hk' hframe hf => h.readOnly_setEntry hk hk' hframe hf

theorem release (h : s.Sound (f ::ₘ held) owned) :
    ((s.putPage f).freeRmap f).Sound held owned where
  references g hg := by
    have hrefs := h.references g hg
    rw [Multiset.count_cons] at hrefs
    have hput := refcount_putPage s f g
    exact hput.trans (by rw [hrefs]; exact Nat.sub_eq_of_eq_add (by ac_rfl))
  maps g hg := by
    have hmaps := h.maps g hg
    rw [Multiset.count_cons] at hmaps
    have hfree := mapcount_freeRmap (s.putPage f) f g
    exact hfree.trans (Nat.sub_eq_of_eq_add (hmaps.trans (by ac_rfl)))
  exclusive k m hk hw hf := by
    obtain ⟨hone, hheld⟩ := h.exclusive k m hk hw hf
    exact ⟨hone, fun hmem => hheld (Multiset.mem_cons_of_mem hmem)⟩
  unmapped := h.unmapped

theorem own (h : s.Sound held owned) (hf : s.Free f) :
    (s.getPage f).Sound held (f ::ₘ owned) where
  references g hg := by
    rw [Multiset.count_cons, ← Nat.add_assoc]
    exact (refcount_getPage s f g).trans (congrArg (· + _) (h.references g hg))
  maps := h.maps
  exclusive := h.exclusive
  unmapped g hg := by
    rcases Multiset.mem_cons.mp hg with rfl | hg
    · exact ⟨hf.2, (h.unused_of_free hf).1⟩
    · exact h.unmapped g hg

theorem disown (h : s.Sound held (f ::ₘ owned)) : (s.putPage f).Sound held owned where
  references g hg := by
    have hrefs := h.references g hg
    rw [Multiset.count_cons] at hrefs
    exact (refcount_putPage s f g).trans (Nat.sub_eq_of_eq_add (hrefs.trans (by ac_rfl)))
  maps := h.maps
  exclusive := h.exclusive
  unmapped g hg := h.unmapped g (Multiset.mem_cons_of_mem hg)

end Sound

end PagedMemory

/-! ## What is asked of the kernel -/

/-- The counters are right, for some holders and owners. -/
def PagedMemory.Counted {κ φ α : Type*} [DecidableEq κ] [DecidableEq φ]
    (s : PagedMemory κ φ α) : Prop :=
  ∃ held owned, s.Sound held owned

/-- A kernel, with what is asked of it for the frames that are not of a file.  References
and mappings are counted with the pages that lead to a frame; a writable page is the only
mapping of its frame; no page comes to lead to a frame that is in use without one; and a
frame in use is written to only through its one mapping. -/
structure MemoryKernel (κ φ α : Type*) [DecidableEq κ] [DecidableEq φ] where
  Step : Type
  step : PagedMemory κ φ α → Step → PagedMemory κ φ α
  ofFile : ∀ s a, (step s a).ofFile = s.ofFile
  references : ∀ s a f, s.Counted → s.ofFile f = false →
    (step s a).refcount f + s.mappings f = s.refcount f + (step s a).mappings f
  maps : ∀ s a f, s.Counted → s.ofFile f = false →
    (step s a).mapcount f + s.mappings f = s.mapcount f + (step s a).mappings f
  exclusive : ∀ s a k m, s.Counted → (step s a).mapped.lookup k = some m →
    m.writable = true → s.ofFile m.frame = false → (step s a).mapcount m.frame = 1
  unmapped : ∀ s a f, s.Counted → s.ofFile f = false → s.refcount f ≠ 0 →
    s.mappings f = 0 → (step s a).mappings f = 0
  inPlace : ∀ s a f, s.Counted → s.ofFile f = false → s.refcount f ≠ 0 →
    (step s a).content f ≠ s.content f → s.mappings f ≠ 0 ∧ s.mapcount f = 1

namespace MemoryKernel

open PagedMemory

variable {κ φ α : Type*} [DecidableEq κ] [DecidableEq φ] (K : MemoryKernel κ φ α)
  {s : PagedMemory κ φ α} {held owned : Multiset φ} {f : φ}

theorem sound (h : s.Sound held owned) (a : K.Step) : (K.step s a).Sound held owned := by
  have hcounted : s.Counted := ⟨held, owned, h⟩
  have hmaps : ∀ f, s.ofFile f = false →
      (K.step s a).mapcount f = (K.step s a).mappings f + held.count f := by
    intro f hf
    have hold := h.maps f hf
    have hnew := K.maps s a f hcounted hf
    omega
  constructor
  case references =>
    intro f hf
    rw [K.ofFile] at hf
    have hold := h.references f hf
    have hnew := K.references s a f hcounted hf
    omega
  case maps =>
    intro f hf
    rw [K.ofFile] at hf
    exact hmaps f hf
  case exclusive =>
    intro k m hk hw hf
    rw [K.ofFile] at hf
    have hone := K.exclusive s a k m hcounted hk hw hf
    have hpos := mappings_pos hk
    rw [hmaps m.frame hf] at hone
    exact ⟨by omega, Multiset.count_eq_zero.mp (by omega)⟩
  case unmapped =>
    intro f hmem
    obtain ⟨hf, hzero⟩ := h.unmapped f hmem
    have hused := h.refcount_pos hf (Multiset.mem_add.mpr (Or.inr hmem))
    exact ⟨by rw [K.ofFile]; exact hf, K.unmapped s a f hcounted hf hused.ne' hzero⟩

theorem content_eq (h : s.Sound held owned) (hf : s.ofFile f = false)
    (hkept : f ∈ held + owned) (a : K.Step) : (K.step s a).content f = s.content f := by
  by_contra hne
  obtain ⟨hmapped, hone⟩ :=
    K.inPlace s a f ⟨held, owned, h⟩ hf (h.refcount_pos hf hkept).ne' hne
  rw [h.maps f hf] at hone
  rcases Multiset.mem_add.mp hkept with hheld | howned
  · have hcount := Multiset.count_pos.mpr hheld
    omega
  · exact hmapped (h.unmapped f howned).2

end MemoryKernel

/-! ## A kernel that copies on write -/

/-- What the processes do to the memory.  Which frame is taken for a new page is part of the
step, and so is what a page holds at first. -/
inductive MemoryStep (κ φ α : Type*) where
  | write (page : κ) (change : α → α) (fresh : φ)
  | touch (page : κ) (fresh : φ) (initial : α)
  | unmap (page : κ)

namespace PagedMemory

variable {κ φ α : Type*} [DecidableEq κ] [DecidableEq φ]

/-- A write through a page that is not writable goes to the frame itself only if this is the
only mapping of a frame that belongs to no file; otherwise the page moves to a copy. -/
def step (s : PagedMemory κ φ α) : MemoryStep κ φ α → PagedMemory κ φ α
  | .write k change fresh =>
    match s.mapped.lookup k with
    | none => s
    | some m =>
      if m.writable then s.setContent m.frame (change (s.content m.frame))
      else if s.ofFile m.frame = false ∧ s.mapcount m.frame = 1 then
        (s.setContent m.frame (change (s.content m.frame))).setEntry k ⟨m.frame, true⟩
      else if s.Free fresh then
        ((s.unmapPage k m).mapPage k ⟨fresh, true⟩).setContent fresh
          (change (s.content m.frame))
      else s
  | .touch k fresh initial =>
    if k ∉ s.mapped ∧ s.Free fresh then
      (s.mapPage k ⟨fresh, true⟩).setContent fresh initial
    else s
  | .unmap k =>
    match s.mapped.lookup k with
    | none => s
    | some m => s.unmapPage k m

namespace Sound

variable {s : PagedMemory κ φ α} {held owned : Multiset φ} {k : κ} {m : Mapping φ} {f : φ}

theorem free_unmapPage (h : s.Sound held owned) (hk : s.mapped.lookup k = some m)
    (hf : s.Free f) : (s.unmapPage k m).Free f := by
  have hne : f ≠ m.frame := by
    rintro rfl
    have hpos := mappings_pos hk
    rw [(h.unused_of_free hf).1] at hpos
    exact absurd hpos (lt_irrefl 0)
  refine ⟨?_, hf.2⟩
  rw [refcount_unmapPage, if_neg hne]
  exact hf.1

theorem step (h : s.Sound held owned) (a : MemoryStep κ φ α) : (s.step a).Sound held owned := by
  cases a with
  | write k change fresh =>
    simp only [PagedMemory.step]
    cases hk : s.mapped.lookup k with
    | none => exact h
    | some m =>
      dsimp only
      split_ifs with hw honly hfree
      · exact h.setContent _ _
      · refine (h.setContent _ _).setEntry hk true fun _ => ?_
        -- the one mapping that is counted is this page
        have hmaps := h.maps m.frame honly.1
        have hpos := mappings_pos hk
        have hone : s.mappings m.frame = 1 := by omega
        have hheld : m.frame ∉ held := Multiset.count_eq_zero.mp (by omega)
        exact ⟨hone, hheld⟩
      · have hk' : k ∉ (s.unmapPage k m).mapped := by
          rw [← AList.lookup_eq_none, lookup_unmapPage, if_pos rfl]
        exact ((h.unmapPage hk).mapPage hk' (h.free_unmapPage hk hfree)).setContent _ _
      · exact h
  | touch k fresh initial =>
    simp only [PagedMemory.step]
    split_ifs with hfree
    · exact (h.mapPage hfree.1 hfree.2).setContent _ _
    · exact h
  | unmap k =>
    simp only [PagedMemory.step]
    cases hk : s.mapped.lookup k with
    | none => exact h
    | some m => exact h.unmapPage hk

end Sound

theorem ofFile_step (s : PagedMemory κ φ α) (a : MemoryStep κ φ α) :
    (s.step a).ofFile = s.ofFile := by
  cases a with
  | write k change fresh =>
    simp only [step]
    cases s.mapped.lookup k with
    | none => rfl
    | some m =>
      dsimp only
      split_ifs <;> rfl
  | unmap k =>
    simp only [step]
    cases s.mapped.lookup k <;> rfl
  | touch k fresh initial =>
    simp only [step]
    split_ifs <;> rfl

theorem mappings_step {s : PagedMemory κ φ α} {f : φ} (hused : s.refcount f ≠ 0)
    (hzero : s.mappings f = 0) (a : MemoryStep κ φ α) : (s.step a).mappings f = 0 := by
  have hbusy : ∀ g, s.Free g → f ≠ g := by
    rintro g hg rfl
    exact hused hg.1
  cases a with
  | write k change fresh =>
    simp only [step]
    cases hk : s.mapped.lookup k with
    | none => exact hzero
    | some m =>
      dsimp only
      split_ifs with hw honly hfree
      · exact hzero
      · exact (mappings_setEntry hk true f).trans hzero
      · have hk' : k ∉ (s.unmapPage k m).mapped := by
          rw [← AList.lookup_eq_none, lookup_unmapPage, if_pos rfl]
        have hrest := mappings_unmapPage hk f
        have hnew := mappings_mapPage hk' ⟨fresh, true⟩ f
        rw [if_neg (hbusy fresh hfree)] at hnew
        exact hnew.trans (by omega)
      · exact hzero
  | touch k fresh initial =>
    simp only [step]
    split_ifs with hfree
    · have hnew := mappings_mapPage hfree.1 ⟨fresh, true⟩ f
      rw [if_neg (hbusy fresh hfree.2), hzero] at hnew
      exact hnew
    · exact hzero
  | unmap k =>
    simp only [step]
    cases hk : s.mapped.lookup k with
    | none => exact hzero
    | some m =>
      have hrest := mappings_unmapPage hk f
      dsimp only
      omega

theorem content_step {s : PagedMemory κ φ α} {f : φ} (hused : s.refcount f ≠ 0)
    (a : MemoryStep κ φ α) :
    (s.step a).content f = s.content f ∨
      ∃ k m, s.mapped.lookup k = some m ∧ m.frame = f ∧
        (m.writable = true ∨ s.mapcount f = 1) := by
  have hbusy : ∀ g, s.Free g → f ≠ g := by
    rintro g hg rfl
    exact hused hg.1
  cases a with
  | write k change fresh =>
    simp only [step]
    cases hk : s.mapped.lookup k with
    | none => exact Or.inl rfl
    | some m =>
      dsimp only
      by_cases hframe : m.frame = f
      · split_ifs with hw honly hfree
        · exact Or.inr ⟨k, m, hk, hframe, Or.inl hw⟩
        · exact Or.inr ⟨k, m, hk, hframe, Or.inr (hframe ▸ honly.2)⟩
        · exact Or.inl (Function.update_of_ne (hbusy fresh hfree) _ _)
        · exact Or.inl rfl
      · split_ifs with hw honly hfree
        · exact Or.inl (Function.update_of_ne (Ne.symm hframe) _ _)
        · exact Or.inl (Function.update_of_ne (Ne.symm hframe) _ _)
        · exact Or.inl (Function.update_of_ne (hbusy fresh hfree) _ _)
        · exact Or.inl rfl
  | touch k fresh initial =>
    simp only [step]
    split_ifs with hfree
    · exact Or.inl (Function.update_of_ne (hbusy fresh hfree.2) _ _)
    · exact Or.inl rfl
  | unmap k =>
    simp only [step]
    cases s.mapped.lookup k <;> exact Or.inl rfl

/-- The one mapping that is counted for the frame of a writable page is that page. -/
theorem Sound.mapcount_of_writable {s : PagedMemory κ φ α} {held owned : Multiset φ}
    (h : s.Sound held owned) {k : κ} {m : Mapping φ} (hk : s.mapped.lookup k = some m)
    (hw : m.writable = true) (hf : s.ofFile m.frame = false) : s.mapcount m.frame = 1 := by
  obtain ⟨hone, hheld⟩ := h.exclusive k m hk hw hf
  rw [h.maps _ hf, hone, Multiset.count_eq_zero.mpr hheld]

end PagedMemory

open PagedMemory in
/-- What is asked of the kernel is true of these steps. -/
def copyOnWrite {κ φ α : Type} [DecidableEq κ] [DecidableEq φ] : MemoryKernel κ φ α where
  Step := MemoryStep κ φ α
  step := PagedMemory.step
  ofFile := ofFile_step
  references s a f := by
    rintro ⟨held, owned, h⟩ hf
    have hold := h.references f hf
    have hnew := (h.step a).references f (by rw [ofFile_step]; exact hf)
    omega
  maps s a f := by
    rintro ⟨held, owned, h⟩ hf
    have hold := h.maps f hf
    have hnew := (h.step a).maps f (by rw [ofFile_step]; exact hf)
    omega
  exclusive s a k m := by
    rintro ⟨held, owned, h⟩ hk hw hf
    exact (h.step a).mapcount_of_writable hk hw (by rw [ofFile_step]; exact hf)
  unmapped s a f _ _ hused hzero := mappings_step hused hzero a
  inPlace s a f := by
    rintro ⟨held, owned, h⟩ hf hused hne
    obtain ⟨k, m, hk, rfl, hpage⟩ := (content_step hused a).resolve_left hne
    refine ⟨(mappings_pos hk).ne', ?_⟩
    rcases hpage with hw | hone
    · exact h.mapcount_of_writable hk hw hf
    · exact hone

end Mitosis.Support
