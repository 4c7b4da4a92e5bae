import Mathlib.Algebra.Order.Ring.Int
import Mitosis.Support.Machine

/-!
# The counters of a copy-on-write page

A page of the kernel counts its references and its mappings.  A `COW4KPage`
takes one of each when it is made and gives both back when it is dropped; so
does every process that maps the page.  Each counter is changed by a step of its
own, and the steps of different parties may come in any order.

A process gives back its mapping first and its reference after it.  The drop of
a `COW4KPage` does it the other way round.  The page is freed with the last
reference, so this order matters exactly when the reference is the last one.
-/

namespace Mitosis.ShadowProcess

open Mitosis.Support (Machine)

/-- The counters of `struct page`.  An unmapped page has the map count `-1`. -/
structure Page where
  refcount : ℤ
  mapcount : ℤ
  compoundMapcount : ℤ
deriving DecidableEq, Repr

def Page.Unmapped (p : Page) : Prop := p.mapcount = -1

instance (p : Page) : Decidable p.Unmapped := inferInstanceAs (Decidable (_ = _))

def pmemGetPage (p : Page) : Page := { p with refcount := p.refcount + 1 }

def pmemPutPage (p : Page) : Page := { p with refcount := p.refcount - 1 }

def pmemPageDupRmap (p : Page) (compound : Bool) : Page :=
  if compound then { p with compoundMapcount := p.compoundMapcount + 1 }
  else { p with mapcount := p.mapcount + 1 }

def pmemPageFreeRmap (p : Page) (compound : Bool) : Page :=
  if compound then { p with compoundMapcount := p.compoundMapcount - 1 }
  else { p with mapcount := p.mapcount - 1 }

/-- A page and how many parties stand where: processes that map it, calls of
`COW4KPage::new` after their first step, `COW4KPage` values, drops after their
first step, and processes that have given back their mapping but not their
reference. -/
structure SharedPage where
  page : Page
  mapping : ℕ
  creating : ℕ
  cow : ℕ
  dropping : ℕ
  unmapping : ℕ
deriving DecidableEq, Repr

inductive PageStep where
  | newGetPage
  | newDupRmap
  | dropPutPage
  | dropFreeRmap
  | unmapRemoveRmap
  | unmapPutPage
deriving DecidableEq, Repr

namespace SharedPage

/-- A page that some processes map and nobody else uses. -/
def mappedBy (processes : ℕ) (compoundMapcount : ℤ) : SharedPage :=
  ⟨⟨processes, processes - 1, compoundMapcount⟩, processes, 0, 0, 0, 0⟩

def step (s : SharedPage) : PageStep → SharedPage
  -- `COW4KPage::new`
  | .newGetPage => { s with page := pmemGetPage s.page, creating := s.creating + 1 }
  | .newDupRmap =>
    { s with
      page := pmemPageDupRmap s.page false
      creating := s.creating - 1
      cow := s.cow + 1 }
  -- `COW4KPage::drop`
  | .dropPutPage =>
    { s with
      page := pmemPutPage s.page
      cow := s.cow - 1
      dropping := s.dropping + 1 }
  | .dropFreeRmap =>
    { s with page := pmemPageFreeRmap s.page false, dropping := s.dropping - 1 }
  -- a process removes its mapping
  | .unmapRemoveRmap =>
    { s with
      page := pmemPageFreeRmap s.page false
      mapping := s.mapping - 1
      unmapping := s.unmapping + 1 }
  | .unmapPutPage => { s with page := pmemPutPage s.page, unmapping := s.unmapping - 1 }

/-- Somebody stands where the step is taken from.  A `COW4KPage` is made of a
page that a process maps. -/
def Possible (s : SharedPage) : PageStep → Prop
  | .newGetPage => 0 < s.mapping
  | .newDupRmap => 0 < s.creating
  | .dropPutPage => 0 < s.cow
  | .dropFreeRmap => 0 < s.dropping
  | .unmapRemoveRmap => 0 < s.mapping
  | .unmapPutPage => 0 < s.unmapping

instance (s : SharedPage) (a : PageStep) : Decidable (s.Possible a) := by
  cases a <;> exact inferInstanceAs (Decidable (0 < _))

/-- The page is not freed yet, and if the step frees it, it is unmapped. -/
def Safe (s : SharedPage) (a : PageStep) : Prop :=
  s.page.refcount ≠ 0 ∧ ((s.step a).page.refcount = 0 → (s.step a).page.Unmapped)

instance (s : SharedPage) (a : PageStep) : Decidable (s.Safe a) :=
  inferInstanceAs (Decidable (_ ∧ (_ → _)))

/-- The last reference is given back by a process, and while no drop is
underway. -/
def LastPutByProcess (s : SharedPage) : PageStep → Prop
  | .dropPutPage => s.page.refcount ≠ 1
  | .unmapPutPage => s.page.refcount = 1 → s.dropping = 0
  | _ => True

instance (s : SharedPage) (a : PageStep) : Decidable (s.LastPutByProcess a) := by
  cases a <;> unfold LastPutByProcess <;> infer_instance

/-! ## What the counters count -/

/-- Everybody but the drops underway holds a reference, and a drop underway does
not find the page freed. -/
structure Counted (s : SharedPage) : Prop where
  references : s.page.refcount = s.mapping + s.creating + s.cow + s.unmapping
  mappings : s.page.mapcount + 1 = s.mapping + s.cow + s.dropping
  held : 0 < s.dropping → 0 < s.page.refcount

theorem counted_mappedBy (processes : ℕ) (compoundMapcount : ℤ) :
    (mappedBy processes compoundMapcount).Counted where
  references := by simp [mappedBy]
  mappings := by simp [mappedBy]
  held h := absurd h (lt_irrefl 0)

variable {s : SharedPage} {a : PageStep}

theorem Counted.refcount_pos (hs : s.Counted) (ha : s.Possible a) : 0 < s.page.refcount := by
  have hrefs := hs.references
  cases a with
  | dropFreeRmap => exact hs.held ha
  | newGetPage | newDupRmap | dropPutPage | unmapRemoveRmap | unmapPutPage =>
    simp only [Possible] at ha
    omega

/-- Only a `put_page` frees the page, and it does so with the last reference. -/
theorem Counted.safe_iff (hs : s.Counted) (ha : s.Possible a) :
    s.Safe a ↔ s.LastPutByProcess a := by
  have hpos := hs.refcount_pos ha
  have hrefs := hs.references
  have hmaps := hs.mappings
  rw [Safe, and_iff_right hpos.ne']
  cases a with
  | newGetPage | newDupRmap | dropFreeRmap | unmapRemoveRmap =>
    simp only [LastPutByProcess, iff_true, step, pmemGetPage, pmemPageDupRmap,
      pmemPageFreeRmap, Bool.false_eq_true, if_false]
    intro hfreed
    omega
  | dropPutPage =>
    simp only [Possible] at ha
    simp only [LastPutByProcess, step, pmemPutPage, Page.Unmapped]
    -- the value that is dropped is still counted as a mapping
    omega
  | unmapPutPage =>
    simp only [Possible] at ha
    simp only [LastPutByProcess, step, pmemPutPage, Page.Unmapped]
    -- without references the mappings left are those of the drops underway
    omega

theorem Counted.step (hs : s.Counted) (ha : s.Possible a) (hlast : s.LastPutByProcess a) :
    (s.step a).Counted := by
  have hpos := hs.refcount_pos ha
  have hrefs := hs.references
  have hmaps := hs.mappings
  cases a with
  | newGetPage | newDupRmap | dropFreeRmap | unmapRemoveRmap | dropPutPage | unmapPutPage =>
    simp only [Possible] at ha
    simp only [LastPutByProcess] at hlast
    constructor <;>
      simp only [SharedPage.step, pmemGetPage, pmemPutPage, pmemPageDupRmap,
        pmemPageFreeRmap, Bool.false_eq_true, if_false] <;> omega

end SharedPage

def pageMachine : Machine SharedPage PageStep Unit where
  step s a := (s.step a, ())

open SharedPage

/-- In every order of the steps the page is freed unmapped and not touched
afterwards, if and only if no drop gives back the last reference and no process
does so during a drop. -/
theorem page_counters_safe_iff (processes : ℕ) (compoundMapcount : ℤ) (as : List PageStep)
    (has : pageMachine.Always Possible (mappedBy processes compoundMapcount) as) :
    pageMachine.Always Safe (mappedBy processes compoundMapcount) as ↔
      pageMachine.Always LastPutByProcess (mappedBy processes compoundMapcount) as :=
  Machine.always_iff_of_invariant Counted (fun _ _ hs ha => hs.safe_iff ha)
    (fun _ _ hs ha hlast => hs.step ha hlast) (counted_mappedBy processes compoundMapcount) has

/-- The shadow process goes first. -/
theorem page_counters_safe_iff_shadow_first :
    let as : List PageStep := [.newGetPage, .newDupRmap, .dropPutPage, .dropFreeRmap,
      .unmapRemoveRmap, .unmapPutPage]
    (pageMachine.run (mappedBy 1 0) as).page = ⟨0, -1, 0⟩ ∧
      pageMachine.Always Safe (mappedBy 1 0) as :=
  ⟨by decide, (page_counters_safe_iff 1 0 _ (by decide)).mpr (by decide)⟩

/-- The parent goes first: the drop of its shadow frees a page that is still
mapped, and then changes a counter of the page that it has freed. -/
theorem shadow_drop_frees_mapped_page :
    let exit : List PageStep := [.newGetPage, .newDupRmap, .unmapRemoveRmap, .unmapPutPage]
    pageMachine.Always Possible (mappedBy 1 0) (exit ++ [.dropPutPage, .dropFreeRmap]) ∧
      ¬ pageMachine.Always Safe (mappedBy 1 0) (exit ++ [.dropPutPage]) ∧
      (pageMachine.run (mappedBy 1 0) exit).page = ⟨1, 0, 0⟩ ∧
      (pageMachine.run (mappedBy 1 0) (exit ++ [.dropPutPage])).page = ⟨0, 0, 0⟩ ∧
      (pageMachine.run (mappedBy 1 0) (exit ++ [.dropPutPage, .dropFreeRmap])).page =
        ⟨0, -1, 0⟩ := by
  decide

end Mitosis.ShadowProcess
