import Mitosis.PageFault.Handler
import Mitosis.Support.Logged

/-!
# The regions that a resume maps

`apply_to` maps one region for each area of the descriptor.  An anonymous area
may grow: its region reaches up to 1 GiB into the gap before the next area.  A
later fault in a region tells its area by the start of the region.

Where the kernel puts a region is its own choice and an input here; it is asked
for the start of the area.  The regions it was asked for are kept in a log.  The
flags of the mapped areas are left out.
-/

namespace Mitosis.Descriptors.VMADescriptor

/-- `end - start`, on 64-bit words. -/
def getSz (v : VMADescriptor) : UInt64 := v.getEnd - v.getStart

end Mitosis.Descriptors.VMADescriptor

namespace Mitosis.Resume

open Support Descriptors
open PageFault (Child)

structure Region where
  start : UInt64
  len : UInt64
deriving DecidableEq, Repr

namespace Region

def Contains (r : Region) (addr : UInt64) : Prop :=
  r.start.toNat ≤ addr.toNat ∧ addr.toNat < r.start.toNat + r.len.toNat

def Disjoint (r r' : Region) : Prop := ∀ addr, r.Contains addr → ¬ r'.Contains addr

end Region

/-! ## Mapping -/

/-- By how much a region is extended: up to the next area, and not at all behind
the last one. -/
def extendedMapAreaSz (vmaMeta : VMADescriptor) : Option VMADescriptor → Outcome UInt64
  | some next => do
    Outcome.assert (vmaMeta.getEnd ≤ next.getStart)
    .ok (min (1024 * 1024 * 1024) (next.getStart - vmaMeta.getEnd))
  | none => .ok 0

/-- Ask the kernel for a region, next to those it has mapped. -/
def pmemVmMmap (mmap : List Region → Region → UInt64) (mapped : List Region) (r : Region) :
    Logged Region UInt64 :=
  ⟨.ok (mmap mapped r), [r]⟩

/-- Map one region into the current task; a region at another place is refused. -/
def mapOneRegion (mmap : List Region → Region → UInt64) (mapped : List Region)
    (vmaMeta : VMADescriptor) (nextVma : Option VMADescriptor) :
    Logged Region (Option Region) := do
  let extended ← Logged.lift (extendedMapAreaSz vmaMeta nextVma)
  let len := if vmaMeta.isAnonymous then vmaMeta.getSz + extended else vmaMeta.getSz
  let r : Region := ⟨vmaMeta.getStart, len⟩
  let ret ← pmemVmMmap mmap mapped r
  Logged.lift (.ok (if ret ≠ vmaMeta.getStart then none else some r))

/-- The loop of `apply_to` over the areas, each with the one behind it. -/
def mapRegions (mmap : List Region → Region → UInt64) :
    List VMADescriptor → List Region → Logged Region (List Region)
  | [], mapped => Logged.lift (.ok mapped)
  | v :: vs, mapped => do
    let vma ← mapOneRegion mmap mapped v vs.head?
    let r ← Logged.lift (Outcome.unwrap vma)
    mapRegions mmap vs (mapped ++ [r])

/-! ## Sorted areas -/

/-- The areas of a process: none is empty, and each ends before the next one. -/
structure SortedAreas (vmas : List VMADescriptor) : Prop where
  nonempty : ∀ v ∈ vmas, v.getStart < v.getEnd
  sorted : vmas.Pairwise fun v w => v.getEnd ≤ w.getStart

variable {v : VMADescriptor} {vmas : List VMADescriptor}

theorem SortedAreas.tail (h : SortedAreas (v :: vmas)) : SortedAreas vmas where
  nonempty := fun w hw => h.nonempty w (List.mem_cons_of_mem v hw)
  sorted := h.sorted.of_cons

theorem toNat_min (a b : UInt64) : (min a b).toNat = min a.toNat b.toNat := by
  rw [Nat.min_def]
  change (if a ≤ b then a else b).toNat = _
  simp only [UInt64.le_iff_toNat_le]
  split <;> rfl

/-- The extension without its assertion. -/
def extension (v : VMADescriptor) (next : Option VMADescriptor) : UInt64 :=
  next.elim 0 fun w => min (1024 * 1024 * 1024) (w.getStart - v.getEnd)

def regionOf (v : VMADescriptor) (next : Option VMADescriptor) : Region where
  start := v.getStart
  len := if v.isAnonymous then v.getSz + extension v next else v.getSz

def regions : List VMADescriptor → List Region
  | [] => []
  | v :: vs => regionOf v vs.head? :: regions vs

theorem mapOneRegion_eq {next : Option VMADescriptor}
    (hbefore : ∀ w, next = some w → v.getEnd ≤ w.getStart)
    (mmap : List Region → Region → UInt64) (mapped : List Region) :
    mapOneRegion mmap mapped v next =
      ⟨.ok (if mmap mapped (regionOf v next) ≠ v.getStart then none
        else some (regionOf v next)), [regionOf v next]⟩ := by
  have hextended : extendedMapAreaSz v next = .ok (extension v next) := by
    cases next with
    | none => rfl
    | some w =>
      rw [extendedMapAreaSz, Outcome.assert_true (hbefore w rfl)]
      rfl
  rw [mapOneRegion, hextended]
  rfl

/-- An area and the one behind it, as they lie in a process. -/
structure Fits (v : VMADescriptor) (next : Option VMADescriptor) : Prop where
  nonempty : v.getStart < v.getEnd
  before : ∀ w, next = some w → v.getEnd ≤ w.getStart

theorem SortedAreas.fits (h : SortedAreas (v :: vmas)) : Fits v vmas.head? where
  nonempty := h.nonempty v List.mem_cons_self
  before := fun _ hw => List.rel_of_pairwise_cons h.sorted (List.mem_of_mem_head? hw)

section Fits

variable {v : VMADescriptor} {next : Option VMADescriptor} (h : Fits v next)

include h

theorem Fits.toNat_getSz : v.getSz.toNat = v.getEnd.toNat - v.getStart.toNat :=
  UInt64.toNat_sub_of_le _ _ (UInt64.le_of_lt h.nonempty)

theorem Fits.toNat_gap {w : VMADescriptor} (hw : next = some w) :
    (w.getStart - v.getEnd).toNat = w.getStart.toNat - v.getEnd.toNat :=
  UInt64.toNat_sub_of_le _ _ (h.before w hw)

theorem Fits.toNat_extension :
    v.getEnd.toNat + (extension v next).toNat < 2 ^ 64 ∧
      ∀ w, next = some w → v.getEnd.toNat + (extension v next).toNat ≤ w.getStart.toNat := by
  cases next with
  | none => exact ⟨v.getEnd.toNat_lt, nofun⟩
  | some w =>
    have hle := UInt64.le_iff_toNat_le.mp (h.before w rfl)
    have hlt := w.getStart.toNat_lt
    have hmin : (extension v (some w)).toNat ≤ w.getStart.toNat - v.getEnd.toNat := by
      rw [extension, Option.elim_some, toNat_min, h.toNat_gap rfl]
      exact Nat.min_le_right _ _
    refine ⟨by omega, ?_⟩
    rintro _ ⟨⟩
    omega

theorem Fits.toNat_sum :
    (v.getSz + extension v next).toNat = v.getSz.toNat + (extension v next).toNat := by
  have hext := h.toNat_extension.1
  have hsz := h.toNat_getSz
  rw [UInt64.toNat_add]
  exact Nat.mod_eq_of_lt (by omega)

theorem Fits.toNat_len :
    v.getStart.toNat + (regionOf v next).len.toNat =
      v.getEnd.toNat + if v.isAnonymous then (extension v next).toNat else 0 := by
  have hlt := UInt64.lt_iff_toNat_lt.mp h.nonempty
  have hsz := h.toNat_getSz
  rw [regionOf]
  dsimp only
  by_cases hanon : v.isAnonymous = true
  · rw [if_pos hanon, if_pos hanon, h.toNat_sum]
    omega
  · rw [if_neg hanon, if_neg hanon]
    omega

theorem Fits.end_lt : v.getStart.toNat + (regionOf v next).len.toNat < 2 ^ 64 := by
  have hext := h.toNat_extension.1
  rw [h.toNat_len]
  split <;> omega

theorem Fits.end_le {w : VMADescriptor} (hw : next = some w) :
    v.getStart.toNat + (regionOf v next).len.toNat ≤ w.getStart.toNat := by
  have hext := h.toNat_extension.2 w hw
  rw [h.toNat_len]
  split <;> omega

end Fits

/-- What is asked for one area: the region starts with the area and contains it,
it ends in the address space and before the next area, and no operation on the
way wraps around. -/
structure Region.Covers (r : Region) (v : VMADescriptor) (next : Option VMADescriptor) :
    Prop where
  eq : r = regionOf v next
  contains : ∀ addr : UInt64, v.getStart ≤ addr → addr < v.getEnd → r.Contains addr
  size : v.getStart ≤ v.getEnd ∧ v.getSz.toNat = v.getEnd.toNat - v.getStart.toNat
  gap : ∀ w, next = some w → v.getEnd ≤ w.getStart ∧
    (w.getStart - v.getEnd).toNat = w.getStart.toNat - v.getEnd.toNat
  sum : (v.getSz + extension v next).toNat = v.getSz.toNat + (extension v next).toNat
  end_lt : r.start.toNat + r.len.toNat < 2 ^ 64
  end_le : ∀ w, next = some w → r.start.toNat + r.len.toNat ≤ w.getStart.toNat

theorem Fits.covers {next : Option VMADescriptor} (h : Fits v next) :
    (regionOf v next).Covers v next where
  eq := rfl
  contains := fun addr hge hlt => by
    rw [UInt64.le_iff_toNat_le] at hge
    rw [UInt64.lt_iff_toNat_lt] at hlt
    have hlen := h.toNat_len
    exact ⟨hge, by change _ < v.getStart.toNat + _; omega⟩
  size := ⟨UInt64.le_of_lt h.nonempty, h.toNat_getSz⟩
  gap := fun w hw => ⟨h.before w hw, h.toNat_gap hw⟩
  sum := h.toNat_sum
  end_lt := h.end_lt
  end_le := fun _ hw => h.end_le hw

/-! ## All areas -/

theorem getElem?_regions (vmas : List VMADescriptor) (i : ℕ) :
    (regions vmas)[i]? = vmas[i]?.map fun v => regionOf v vmas[i + 1]? := by
  induction vmas generalizing i with
  | nil => rfl
  | cons v vs ih =>
    cases i with
    | zero =>
      rw [regions, List.getElem?_cons_zero, List.getElem?_cons_zero,
        List.getElem?_cons_succ, List.head?_eq_getElem?]
      rfl
    | succ i =>
      rw [regions, List.getElem?_cons_succ, List.getElem?_cons_succ,
        List.getElem?_cons_succ, ih]

theorem SortedAreas.fits_getElem (h : SortedAreas vmas) {i : ℕ}
    (hi : vmas[i]? = some v) : Fits v vmas[i + 1]? where
  nonempty := h.nonempty v (List.mem_of_getElem? hi)
  before := fun w hw => by
    obtain ⟨hlt, rfl⟩ := List.getElem?_eq_some_iff.mp hi
    obtain ⟨hlt', rfl⟩ := List.getElem?_eq_some_iff.mp hw
    exact List.pairwise_iff_getElem.mp h.sorted i (i + 1) hlt hlt' (Nat.lt_succ_self i)

theorem SortedAreas.end_le_of_lt (h : SortedAreas vmas) {i j : ℕ}
    {r : Region} {w : VMADescriptor} (hr : (regions vmas)[i]? = some r)
    (hw : vmas[j]? = some w) (hij : i < j) :
    r.start.toNat + r.len.toNat ≤ w.getStart.toNat := by
  rw [getElem?_regions, Option.map_eq_some_iff] at hr
  obtain ⟨v, hv, rfl⟩ := hr
  obtain ⟨hlt, rfl⟩ := List.getElem?_eq_some_iff.mp hw
  have hnext : vmas[i + 1]? = some vmas[i + 1] := List.getElem?_eq_getElem (by omega)
  have hend := (h.fits_getElem hv).end_le hnext
  refine hend.trans ?_
  rcases (Nat.succ_le_of_lt hij).eq_or_lt with rfl | hlater
  · exact le_rfl
  · have hne := h.nonempty vmas[i + 1] (List.getElem_mem _)
    have hle := List.pairwise_iff_getElem.mp h.sorted (i + 1) j (by omega) hlt hlater
    exact UInt64.le_iff_toNat_le.mp (UInt64.le_trans (UInt64.le_of_lt hne) hle)

theorem SortedAreas.index_unique (h : SortedAreas vmas) {i k : ℕ}
    {r r' : Region} (hr : (regions vmas)[i]? = some r) (hr' : (regions vmas)[k]? = some r')
    {addr : UInt64} (hin : r.Contains addr) (hin' : r'.Contains addr) : k = i := by
  have hstart : ∀ {j : ℕ} {s : Region}, (regions vmas)[j]? = some s →
      ∃ w, vmas[j]? = some w ∧ s.start = w.getStart := by
    intro j s hs
    rw [getElem?_regions, Option.map_eq_some_iff] at hs
    obtain ⟨w, hw, rfl⟩ := hs
    exact ⟨w, hw, rfl⟩
  rcases Nat.lt_trichotomy k i with hlt | heq | hgt
  · obtain ⟨w, hw, heq⟩ := hstart hr
    have hend := h.end_le_of_lt hr' hw hlt
    rw [← heq] at hend
    exact absurd hin'.2 (Nat.not_lt.mpr (hend.trans hin.1))
  · exact heq
  · obtain ⟨w, hw, heq⟩ := hstart hr'
    have hend := h.end_le_of_lt hr hw hgt
    rw [← heq] at hend
    exact absurd hin.2 (Nat.not_lt.mpr (hend.trans hin'.1))

theorem SortedAreas.pairwise_disjoint (h : SortedAreas vmas) :
    (regions vmas).Pairwise Region.Disjoint := by
  rw [List.pairwise_iff_getElem]
  intro i j hi hj hij addr hin hin'
  have := h.index_unique (List.getElem?_eq_getElem hi) (List.getElem?_eq_getElem hj) hin hin'
  omega

theorem SortedAreas.start_eq_iff (h : SortedAreas vmas) {i j : ℕ}
    {v w : VMADescriptor} (hv : vmas[i]? = some v) (hw : vmas[j]? = some w) :
    (v.getStart == w.getStart) = true ↔ j = i := by
  rw [beq_iff_eq]
  constructor
  · intro heq
    have hr : (regions vmas)[i]? = some (regionOf v vmas[i + 1]?) := by
      rw [getElem?_regions, hv, Option.map_some]
    have hr' : (regions vmas)[j]? = some (regionOf w vmas[j + 1]?) := by
      rw [getElem?_regions, hw, Option.map_some]
    have hin := (h.fits_getElem hv).covers.contains v.getStart (UInt64.le_refl _)
      (h.fits_getElem hv).nonempty
    have hin' := (h.fits_getElem hw).covers.contains v.getStart
      (by rw [heq]; exact UInt64.le_refl _) (by rw [heq]; exact (h.fits_getElem hw).nonempty)
    exact h.index_unique hr hr' hin hin'
  · rintro rfl
    rw [hv] at hw
    cases hw
    rfl

theorem SortedAreas.anonymous_eq (h : SortedAreas vmas) {i : ℕ} (hv : vmas[i]? = some v)
    {c : Child} (hc : c.descriptor.vma = vmas) :
    c.anonymous v.getStart = v.isAnonymous := by
  rw [Child.anonymous, hc, Bool.eq_iff_iff, List.any_eq_true]
  constructor
  · rintro ⟨w, hw, hmatch⟩
    rw [Bool.and_eq_true] at hmatch
    obtain ⟨j, hj⟩ := List.mem_iff_getElem?.mp hw
    obtain rfl := (h.start_eq_iff hv hj).mp hmatch.2
    rw [hv] at hj
    cases hj
    exact hmatch.1
  · intro hanon
    refine ⟨v, List.mem_of_getElem? hv, ?_⟩
    rw [hanon, Bool.true_and, beq_self_eq_true]

/-! ## The loop -/

section Loop

variable {mmap : List Region → Region → UInt64}

theorem mapRegions_cons {vs : List VMADescriptor}
    (hbefore : ∀ w, vs.head? = some w → v.getEnd ≤ w.getStart) (mapped : List Region) :
    mapRegions mmap (v :: vs) mapped =
      if mmap mapped (regionOf v vs.head?) = v.getStart then
        ⟨(mapRegions mmap vs (mapped ++ [regionOf v vs.head?])).outcome,
          regionOf v vs.head? :: (mapRegions mmap vs (mapped ++ [regionOf v vs.head?])).log⟩
      else ⟨.error .panicked, [regionOf v vs.head?]⟩ := by
  rw [mapRegions, mapOneRegion_eq hbefore, Logged.ok_bind]
  by_cases hret : mmap mapped (regionOf v vs.head?) = v.getStart
  · rw [if_pos hret, if_neg (not_not_intro hret)]
    rfl
  · rw [if_neg hret, if_pos hret]
    rfl

/-- Every area ends before the next one, and the kernel maps its region where it
is asked to. -/
def MapsInOrder (mmap : List Region → Region → UInt64) : List VMADescriptor → List Region → Prop
  | [], _ => True
  | v :: vs, mapped =>
    (∀ w, vs.head? = some w → v.getEnd ≤ w.getStart) ∧
      mmap mapped (regionOf v vs.head?) = v.getStart ∧
      MapsInOrder mmap vs (mapped ++ [regionOf v vs.head?])

theorem exists_mapRegions_iff {mapped : List Region} :
    (∃ areas, (mapRegions mmap vmas mapped).outcome = .ok areas) ↔
      MapsInOrder mmap vmas mapped := by
  induction vmas generalizing mapped with
  | nil => exact iff_of_true ⟨mapped, rfl⟩ trivial
  | cons v vs ih =>
    rw [MapsInOrder]
    by_cases hbefore : ∀ w, vs.head? = some w → v.getEnd ≤ w.getStart
    · rw [and_iff_right hbefore, mapRegions_cons hbefore, ← ih]
      split
      · next hret => rw [and_iff_right hret]
      · next hret => exact iff_of_false (by simp) fun h => hret h.1
    · refine iff_of_false ?_ fun h => hbefore h.1
      -- the assertion on the next area fails
      push Not at hbefore
      obtain ⟨w, hw, hlt⟩ := hbefore
      have hassert : extendedMapAreaSz v vs.head? = .error .panicked := by
        rw [hw, extendedMapAreaSz, Outcome.assert, if_neg hlt]
        rfl
      rw [mapRegions, mapOneRegion, hassert]
      rintro ⟨areas, hareas⟩
      cases hareas

/-- Whatever the kernel answers, it is asked for these regions, until it refuses
one. -/
theorem SortedAreas.log_isPrefix (h : SortedAreas vmas)
    (mapped : List Region) : (mapRegions mmap vmas mapped).log <+: regions vmas := by
  induction vmas generalizing mapped with
  | nil => exact List.prefix_rfl
  | cons v vs ih =>
    rw [mapRegions_cons h.fits.before, regions]
    split
    · exact List.cons_prefix_cons.mpr ⟨rfl, ih h.tail _⟩
    · exact List.cons_prefix_cons.mpr ⟨rfl, List.nil_prefix⟩

/-- The kernel maps a region where it was asked to if nothing is mapped there. -/
def Honours (mmap : List Region → Region → UInt64) : Prop :=
  ∀ mapped r, (∀ r' ∈ mapped, r'.Disjoint r) → mmap mapped r = r.start

theorem SortedAreas.mapRegions_eq (h : SortedAreas vmas)
    (hmmap : Honours mmap) {mapped : List Region}
    (hdisjoint : (mapped ++ regions vmas).Pairwise Region.Disjoint) :
    mapRegions mmap vmas mapped = ⟨.ok (mapped ++ regions vmas), regions vmas⟩ := by
  induction vmas generalizing mapped with
  | nil =>
    rw [regions, List.append_nil]
    rfl
  | cons v vs ih =>
    rw [regions] at hdisjoint ⊢
    have hret : mmap mapped (regionOf v vs.head?) = v.getStart := by
      refine hmmap mapped _ fun r hr => ?_
      exact (List.pairwise_append.mp hdisjoint).2.2 r hr _ List.mem_cons_self
    rw [List.append_cons] at hdisjoint ⊢
    rw [mapRegions_cons h.fits.before, if_pos hret, ih h.tail hdisjoint]

end Loop

/-- For sorted areas, `apply_to` asks the kernel for regions that each contain
their area, are disjoint and are computed without overflow; no assertion fails,
and a kernel that maps free regions where it is asked to maps them all.  An
address of the region of an area lies in no other region, and the test by start
address finds exactly that area. -/
theorem regions_of_sorted_areas (vmas : List VMADescriptor) (h : SortedAreas vmas) :
    (∀ (i : ℕ) (v : VMADescriptor), vmas[i]? = some v →
      ∃ r, (regions vmas)[i]? = some r ∧ r.Covers v vmas[i + 1]? ∧
      ∀ mmap mapped, mapOneRegion mmap mapped v vmas[i + 1]? =
        ⟨.ok (if mmap mapped r ≠ v.getStart then none else some r), [r]⟩) ∧
    (regions vmas).Pairwise Region.Disjoint ∧
    (∀ mmap, (mapRegions mmap vmas []).log <+: regions vmas) ∧
    (∀ mmap, Honours mmap → mapRegions mmap vmas [] = ⟨.ok (regions vmas), regions vmas⟩) ∧
    (∀ (i : ℕ) (v : VMADescriptor) (r : Region) (addr : UInt64), vmas[i]? = some v →
      (regions vmas)[i]? = some r → r.Contains addr →
      (∀ (k : ℕ) (r' : Region), (regions vmas)[k]? = some r' → r'.Contains addr → k = i) ∧
      (∀ (j : ℕ) (w : VMADescriptor), vmas[j]? = some w →
        ((r.start == w.getStart) = true ↔ j = i)) ∧
      ∀ c : Child, c.descriptor.vma = vmas → c.anonymous r.start = v.isAnonymous) := by
  refine ⟨?_, h.pairwise_disjoint, fun mmap => h.log_isPrefix [], ?_, ?_⟩
  · intro i v hv
    have hfits := h.fits_getElem hv
    refine ⟨regionOf v vmas[i + 1]?, ?_, hfits.covers, mapOneRegion_eq hfits.before⟩
    rw [getElem?_regions, hv, Option.map_some]
  · intro mmap hmmap
    exact h.mapRegions_eq hmmap h.pairwise_disjoint
  · intro i v r addr hv hr hin
    have hstart : r.start = v.getStart := by
      rw [getElem?_regions, hv, Option.map_some] at hr
      cases hr
      rfl
    refine ⟨fun k r' hr' hin' => h.index_unique hr hr' hin hin', fun j w hw => ?_,
      fun c hc => ?_⟩
    · rw [hstart]
      exact h.start_eq_iff hv hw
    · rw [hstart]
      exact h.anonymous_eq hv hc

/-- Adjacent areas, a file-backed one among them, and a gap of more than a
gibibyte. -/
theorem regions_of_sorted_areas_mixed :
    let vmas : List VMADescriptor := [⟨(4096, 8192), 3, 37, true⟩, ⟨(8192, 16384), 3, 37, false⟩,
      ⟨(65536, 69632), 3, 37, true⟩, ⟨(4294967296, 4294971392), 3, 37, true⟩]
    SortedAreas vmas ∧
      regions vmas = [⟨4096, 4096⟩, ⟨8192, 8192⟩, ⟨65536, 1073745920⟩, ⟨4294967296, 4096⟩] ∧
      (regions vmas).Pairwise Region.Disjoint := by
  intro vmas
  have h : SortedAreas vmas := ⟨by decide, by decide⟩
  exact ⟨h, by decide, (regions_of_sorted_areas vmas h).2.1⟩

end Mitosis.Resume
