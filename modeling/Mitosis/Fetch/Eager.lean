import Mitosis.Fetch.Verified
import Mitosis.PageFault.Equivalence
import Mitosis.Resume.Regions
import Mitosis.Support.Batching

/-!
# Eager resume

Built with `eager-resume`, `apply_to` does not leave the pages to the fault handler: it goes
through every area, reads the mapped pages in batches of twelve addresses and inserts them
into the new areas.  The pages that were fetched are kept in a set, and are freed when the
handler is dropped.

An address is visited once, so what the allocator, the driver and `vm_insert_page` do for
it is a function of the address here.
-/

namespace Mitosis.Fetch

open Mitosis.Descriptors
open Mitosis.OsNetwork
open Mitosis.PageFault
open Mitosis.RemoteMapping
open Mitosis.RemotePaging
open Mitosis.Support

/-! ## The pages of an area -/

/-- A memory area of a user process. -/
structure UserArea where
  vma : VMADescriptor
  ordered : vma.getStart ≤ vma.getEnd
  user : vma.getEnd.toNat ≤ 2 ^ 47

namespace UserArea

/-- The number of steps of `(start..start + size).step_by(4096)`. -/
def pageCount (a : UserArea) : ℕ := (a.vma.getSz.toNat + 4095) / 4096

theorem canonical_page (a : UserArea) (i : Fin a.pageCount) :
    Canonical (a.vma.getStart.toNat + 4096 * i) := by
  have hsize : a.vma.getSz.toNat = a.vma.getEnd.toNat - a.vma.getStart.toNat :=
    UInt64.toNat_sub_of_le _ _ a.ordered
  have hle := UInt64.le_iff_toNat_le.mp a.ordered
  have huser := a.user
  have hi : i.val < (a.vma.getSz.toNat + 4095) / 4096 := i.isLt
  exact Or.inl (by omega)

def pages (a : UserArea) : List VirtAddr :=
  (List.finRange a.pageCount).map fun i =>
    ⟨a.vma.getStart.toNat + 4096 * i.val, a.canonical_page i⟩

end UserArea

/-! ## The loop -/

/-- What happens outside for each address, and the polls of the wait that a batch ends
with. -/
structure EagerEnv where
  post : VirtAddr → PostEnv
  polls : List VirtAddr → List (CqEvent × ℤ)
  inserts : VirtAddr → Bool

/-- The queue pairs, the pages that were inserted, and the set of the descriptor.
`records` is the history of the fetches. -/
structure EagerState where
  queues : Queues
  installed : List (VirtAddr × ℕ)
  eagerFetchedPages : Finset ℕ
  records : List FetchRecord

section Eager

variable (lookupPgTable : VirtAddr → Option PhysAddr) (info : AccessInfo) (env : EagerEnv)

/-- Insert the page that was fetched for an address.  The result of `vm_insert_page` is
not looked at. -/
def insertOne (s : EagerState) : VirtAddr × Option FetchRecord → EagerState
  | (_, none) => s
  | (addr, some rec) =>
    if rec.fate = .returned then
      { s with
        installed := if env.inserts addr then s.installed ++ [(addr, rec.page)]
          else s.installed
        eagerFetchedPages := insert rec.page s.eagerFetchedPages }
    else s

/-- Read the pages of a buffer of addresses and insert them. -/
def fetchBatch (s : EagerState) (addrBuf : List VirtAddr) : EagerState :=
  let read := batchReadRemotePages lookupPgTable info (env.polls addrBuf) s.queues
    (addrBuf.map fun addr => (addr, env.post addr))
  (addrBuf.zip read.2).foldl (insertOne env)
    { s with queues := read.1, records := s.records ++ read.2.reduceOption }

/-- `eager_fetch_vma`. -/
def eagerFetchVma (s : EagerState) (a : UserArea) : EagerState :=
  flushRest (fetchBatch lookupPgTable info env)
    (a.pages.foldl (bufferOne 12 (fetchBatch lookupPgTable info env)) (s, []))

/-- The loop of `apply_to` over the areas. -/
def eagerResume (s : EagerState) (areas : List UserArea) : EagerState :=
  areas.foldl (eagerFetchVma lookupPgTable info env) s

def eagerMachine : Machine EagerState (List VirtAddr) Unit where
  step s addrBuf := (fetchBatch lookupPgTable info env s addrBuf, ())

end Eager

def eagerBatches (areas : List UserArea) : List (List VirtAddr) :=
  areas.flatMap fun a => batches 12 [] a.pages

section Loop

variable {lookupPgTable : VirtAddr → Option PhysAddr} {info : AccessInfo} {env : EagerEnv}

theorem flatten_eagerBatches (areas : List UserArea) :
    (eagerBatches areas).flatten = areas.flatMap UserArea.pages := by
  induction areas with
  | nil => rfl
  | cons a areas ih =>
    have hcons : eagerBatches (a :: areas) = batches 12 [] a.pages ++ eagerBatches areas := rfl
    rw [hcons, List.flatten_append, flatten_batches, ih]
    rfl

theorem run_eagerMachine (s : EagerState) (bufs : List (List VirtAddr)) :
    (eagerMachine lookupPgTable info env).run s bufs =
      bufs.foldl (fetchBatch lookupPgTable info env) s := by
  induction bufs generalizing s with
  | nil => rfl
  | cons buf bufs ih =>
    rw [Machine.run_cons, ih]
    rfl

/-- The loop with its buffer makes one batch after the other. -/
theorem eagerResume_eq (s : EagerState) (areas : List UserArea) :
    eagerResume lookupPgTable info env s areas =
      (eagerMachine lookupPgTable info env).run s (eagerBatches areas) := by
  rw [run_eagerMachine]
  induction areas generalizing s with
  | nil => rfl
  | cons a areas ih =>
    have hcons : eagerBatches (a :: areas) = batches 12 [] a.pages ++ eagerBatches areas := rfl
    rw [hcons, List.foldl_append, ← foldl_batches s (by decide) a.pages]
    exact ih _

end Loop

/-! ## One batch -/

/-- The record that an iteration leaves for a mapped address. -/
structure RecordOf (lookupPgTable : VirtAddr → Option PhysAddr) (va : VirtAddr) (env : PostEnv)
    (rec : FetchRecord) : Prop where
  page : rec.page = env.page
  fate : rec.fate = .returned ∨ rec.fate = .freed
  read : ∀ r, rec.read = some r → lookupPgTable va = some r.raddr

def Answers (lookupPgTable : VirtAddr → Option PhysAddr) (va : VirtAddr) (env : PostEnv) :
    Option FetchRecord → Prop
  | none => lookupPgTable va = none
  | some rec => lookupPgTable va ≠ none ∧ RecordOf lookupPgTable va env rec

/-- The mapped addresses of a buffer with their records. -/
def answered (addrBuf : List VirtAddr) (results : List (Option FetchRecord)) :
    List (VirtAddr × FetchRecord) :=
  (addrBuf.zip results).filterMap fun z => z.2.map (Prod.mk z.1)

section Batch

variable {lookupPgTable : VirtAddr → Option PhysAddr} {info : AccessInfo} {env : EagerEnv}
  {queues : Queues}

theorem fateOf_cases {ε α : Type} (w : Option (Except ε α)) :
    fateOf w = .returned ∨ fateOf w = .freed := by
  unfold fateOf
  split
  · exact Or.inl rfl
  · exact Or.inr rfl

theorem answers_batchReadOne (polls : List (CqEvent × ℤ)) (last : Bool) (va : VirtAddr)
    (penv : PostEnv) :
    Answers lookupPgTable va penv
      (batchReadOne lookupPgTable info polls last queues va penv).2 := by
  cases hw : lookupPgTable va with
  | none =>
    rw [batchReadOne_unmapped hw]
    exact hw
  | some src =>
    -- the record of a READ, whether it is posted or not and waited for or not
    have hrecord : ∀ read fate, (∀ r, read = some r → r.raddr = src) →
        fate = .returned ∨ fate = .freed →
        Answers lookupPgTable va penv (some ⟨.dc penv.cpu, penv.page, read, fate⟩) := by
      intro read fate hread hfate
      refine ⟨by simp [hw], rfl, hfate, fun r hr => ?_⟩
      rw [hw, hread r hr]
    rw [batchReadOne, hw]
    dsimp only
    cases hpost : penv.postError with
    | some err =>
      have hread := fun fate => hrecord none fate fun r hr =>
        absurd hr.symm (Option.some_ne_none r)
      split
      · exact hread _ (fateOf_cases _)
      · exact hread _ (Or.inl rfl)
    | none =>
      have hread := fun fate => hrecord (some (nextRead (queues (.dc penv.cpu))
        (some info.accessHandler) src info.rkey penv.page)) fate fun r hr =>
          Option.some.inj hr ▸ rfl
      split
      · exact hread _ (fateOf_cases _)
      · exact hread _ (Or.inl rfl)

theorem answers_batch (post : VirtAddr → PostEnv) (polls : List (CqEvent × ℤ))
    (addrBuf : List VirtAddr) :
    List.Forall₂ (fun va => Answers lookupPgTable va (post va)) addrBuf
      (batchReadRemotePages lookupPgTable info polls queues
        (addrBuf.map fun addr => (addr, post addr))).2 := by
  induction addrBuf generalizing queues with
  | nil => exact List.Forall₂.nil
  | cons va addrBuf ih => exact List.Forall₂.cons (answers_batchReadOne _ _ _ _) ih

variable {post : VirtAddr → PostEnv} {addrBuf : List VirtAddr}
  {results : List (Option FetchRecord)}

theorem map_fst_answered
    (h : List.Forall₂ (fun va => Answers lookupPgTable va (post va)) addrBuf results) :
    (answered addrBuf results).map Prod.fst =
      addrBuf.filter fun va => (lookupPgTable va).isSome := by
  induction h with
  | nil => rfl
  | @cons va o addrBuf results hone _ ih =>
    cases o with
    | none =>
      rw [List.filter_cons_of_neg (by simp [show lookupPgTable va = none from hone]), ← ih]
      rfl
    | some rec =>
      have hmapped : (lookupPgTable va).isSome = true := Option.isSome_iff_ne_none.mpr hone.1
      rw [List.filter_cons, if_pos hmapped, ← ih]
      rfl

theorem map_snd_answered
    (h : List.Forall₂ (fun va => Answers lookupPgTable va (post va)) addrBuf results) :
    (answered addrBuf results).map Prod.snd = results.reduceOption := by
  induction h with
  | nil => rfl
  | @cons va o addrBuf results hone _ ih =>
    rw [reduceOption_cons, ← ih]
    cases o with
    | none => rfl
    | some rec => rfl

theorem recordOf_answered
    (h : List.Forall₂ (fun va => Answers lookupPgTable va (post va)) addrBuf results)
    {z : VirtAddr × FetchRecord} (hz : z ∈ answered addrBuf results) :
    RecordOf lookupPgTable z.1 (post z.1) z.2 := by
  obtain ⟨⟨va, o⟩, hmem, heq⟩ := List.mem_filterMap.mp hz
  obtain ⟨rec, rfl, rfl⟩ := Option.map_eq_some_iff.mp heq
  exact (List.forall₂_zip h hmem).2

theorem foldl_insertOne (s : EagerState) (addrBuf : List VirtAddr)
    (results : List (Option FetchRecord)) :
    (addrBuf.zip results).foldl (insertOne env) s =
      { s with
        installed := s.installed ++ ((answered addrBuf results).filter fun z =>
          z.2.fate = .returned ∧ env.inserts z.1 = true).map fun z => (z.1, z.2.page)
        eagerFetchedPages := s.eagerFetchedPages ∪ (((answered addrBuf results).filter fun z =>
          z.2.fate = .returned).map fun z => z.2.page).toFinset } := by
  unfold answered
  induction addrBuf.zip results generalizing s with
  | nil => simp
  | cons z zs ih =>
    obtain ⟨va, o⟩ := z
    rw [List.foldl_cons, ih]
    cases o with
    | none => rfl
    | some rec =>
      by_cases hfate : rec.fate = .returned
      · by_cases hins : env.inserts va = true
        · simp [insertOne, hfate, hins]
        · simp [insertOne, hfate, hins]
      · simp [insertOne, hfate]

theorem fetchBatch_eq (s : EagerState) (addrBuf : List VirtAddr) :
    fetchBatch lookupPgTable info env s addrBuf =
      let read := batchReadRemotePages lookupPgTable info (env.polls addrBuf) s.queues
        (addrBuf.map fun addr => (addr, env.post addr))
      let zs := answered addrBuf read.2
      ⟨read.1,
        s.installed ++ (zs.filter fun z => z.2.fate = .returned ∧ env.inserts z.1 = true).map
          fun z => (z.1, z.2.page),
        s.eagerFetchedPages ∪
          ((zs.filter fun z => z.2.fate = .returned).map fun z => z.2.page).toFinset,
        s.records ++ zs.map Prod.snd⟩ := by
  rw [fetchBatch]
  dsimp only
  rw [foldl_insertOne, map_snd_answered (answers_batch env.post _ addrBuf)]

end Batch

/-! ## The pages are given back -/

/-- The pages that the batches gave back, and those that the drop of the handler gives
back. -/
def EagerState.frees (s : EagerState) : Multiset ℕ :=
  ((s.records.filter fun rec => rec.fate = .freed).map FetchRecord.page : Multiset ℕ) +
    s.eagerFetchedPages.val

/-- Every page is given back as often as it was allocated; the pages that are inserted are
in the set, and each was inserted once. -/
structure EagerState.Accounted (s : EagerState) : Prop where
  frees : s.frees = (s.records.map FetchRecord.page : Multiset ℕ)
  held : ∀ z ∈ s.installed, z.2 ∈ s.eagerFetchedPages
  once : (s.installed.map Prod.snd).Nodup

/-- The allocator returns no page that is held. -/
structure FreshPages (lookupPgTable : VirtAddr → Option PhysAddr) (env : EagerEnv)
    (s : EagerState) (addrBuf : List VirtAddr) : Prop where
  distinct : ((addrBuf.filter fun va => (lookupPgTable va).isSome).map
    fun va => (env.post va).page).Nodup
  unheld : ∀ va ∈ addrBuf, lookupPgTable va ≠ none →
    (env.post va).page ∉ s.eagerFetchedPages

section Accounting

variable {lookupPgTable : VirtAddr → Option PhysAddr} {info : AccessInfo} {env : EagerEnv}
  {s : EagerState} {addrBuf : List VirtAddr} {zs : List (VirtAddr × FetchRecord)}

theorem filter_freed (h : ∀ z ∈ zs, z.2.fate = .returned ∨ z.2.fate = .freed) :
    (zs.map Prod.snd).filter (fun rec => rec.fate = .freed) =
      (zs.filter fun z => ¬ z.2.fate = .returned).map Prod.snd := by
  rw [List.filter_map]
  congr 1
  refine List.filter_congr fun z hz => ?_
  rcases h z hz with hfate | hfate
  · simp [hfate]
  · simp [hfate]

/-- The pages of a batch are those that are freed and those that are put into the set. -/
theorem freed_add_returned (h : ∀ z ∈ zs, z.2.fate = .returned ∨ z.2.fate = .freed) :
    (((zs.map Prod.snd).filter fun rec => rec.fate = .freed).map FetchRecord.page :
        Multiset ℕ) +
      ((zs.filter fun z => z.2.fate = .returned).map (fun z => z.2.page) : Multiset ℕ) =
      (zs.map (fun z => z.2.page) : Multiset ℕ) := by
  rw [filter_freed h, List.map_map, add_comm, Multiset.coe_add, Multiset.coe_eq_coe]
  have hperm := (List.filter_append_perm (fun z : VirtAddr × FetchRecord =>
    decide (z.2.fate = .returned)) zs).map fun z => z.2.page
  rw [List.map_append] at hperm
  simpa [Function.comp_def] using hperm

theorem val_union_toFinset {held : Finset ℕ} {pages : List ℕ} (hnodup : pages.Nodup)
    (hdisjoint : ∀ p ∈ pages, p ∉ held) :
    (held ∪ pages.toFinset).val = held.val + (pages : Multiset ℕ) := by
  have hval : pages.toFinset.val = (pages : Multiset ℕ) := by
    rw [List.toFinset_val, hnodup.dedup]
  rw [Finset.union_val, hval, ← Multiset.add_eq_union_iff_disjoint.mpr]
  rw [Multiset.disjoint_left]
  exact fun hheld hmem => hdisjoint _ (Multiset.mem_coe.mp hmem) hheld

theorem map_page_answered {results : List (Option FetchRecord)}
    (h : List.Forall₂ (fun va => Answers lookupPgTable va (env.post va)) addrBuf results) :
    (answered addrBuf results).map (fun z => z.2.page) =
      (addrBuf.filter fun va => (lookupPgTable va).isSome).map fun va => (env.post va).page := by
  rw [← map_fst_answered h, List.map_map]
  exact List.map_congr_left fun z hz => (recordOf_answered h hz).page

theorem EagerState.Accounted.fetchBatch (info : AccessInfo) (hs : s.Accounted)
    (hfresh : FreshPages lookupPgTable env s addrBuf) :
    (fetchBatch lookupPgTable info env s addrBuf).Accounted := by
  have hall : List.Forall₂ (fun va => Answers lookupPgTable va (env.post va)) addrBuf
      (batchReadRemotePages lookupPgTable info (env.polls addrBuf) s.queues
        (addrBuf.map fun addr => (addr, env.post addr))).2 := answers_batch _ _ _
  rw [fetchBatch_eq]
  generalize batchReadRemotePages lookupPgTable info (env.polls addrBuf) s.queues
    (addrBuf.map fun addr => (addr, env.post addr)) = read at hall
  have hpages := map_page_answered hall
  have hfates := fun z hz => (recordOf_answered hall (z := z) hz).fate
  dsimp only
  set zs := answered addrBuf read.2
  -- the pages of the batch are distinct, and none of them is in the set
  have hnodup : (zs.map fun z => z.2.page).Nodup := hpages ▸ hfresh.distinct
  have hunheld : ∀ p ∈ zs.map (fun z => z.2.page), p ∉ s.eagerFetchedPages := by
    rw [hpages]
    intro p hp
    obtain ⟨va, hva, rfl⟩ := List.mem_map.mp hp
    obtain ⟨hmem, hmapped⟩ := List.mem_filter.mp hva
    exact hfresh.unheld va hmem (Option.isSome_iff_ne_none.mp hmapped)
  have hsub : ∀ q : VirtAddr × FetchRecord → Bool,
      ((zs.filter q).map fun z => z.2.page).Sublist (zs.map fun z => z.2.page) :=
    fun q => (List.filter_sublist).map _
  constructor
  case frees =>
    have hval := val_union_toFinset (hnodup.sublist (hsub _))
      fun p hp => hunheld p ((hsub fun z => z.2.fate = .returned).subset hp)
    have hparts : _ = (zs.map (FetchRecord.page ∘ Prod.snd) : Multiset ℕ) :=
      freed_add_returned hfates
    have hold := hs.frees
    unfold EagerState.frees at hold ⊢
    dsimp only
    rw [hval, List.filter_append, List.map_append, List.map_append, List.map_map,
      ← Multiset.coe_add, ← Multiset.coe_add, ← hold, ← hparts]
    exact add_add_add_comm _ _ _ _
  case held =>
    intro z hz
    rcases List.mem_append.mp hz with hz | hz
    · exact Finset.mem_union_left _ (hs.held z hz)
    · obtain ⟨y, hy, rfl⟩ := List.mem_map.mp hz
      obtain ⟨hmem, hkept⟩ := List.mem_filter.mp hy
      refine Finset.mem_union_right _ (List.mem_toFinset.mpr (List.mem_map.mpr ⟨y, ?_, rfl⟩))
      exact List.mem_filter.mpr ⟨hmem, decide_eq_true (of_decide_eq_true hkept).1⟩
  case once =>
    rw [List.map_append, List.map_map]
    refine List.Nodup.append hs.once (hnodup.sublist (hsub _)) ?_
    intro p hp hnew
    obtain ⟨z, hz, rfl⟩ := List.mem_map.mp hp
    exact hunheld z.2 ((hsub _).subset hnew) (hs.held z hz)

end Accounting

/-- The state in which `apply_to` starts. -/
def EagerState.start (queues : Queues) : EagerState := ⟨queues, [], ∅, []⟩

theorem EagerState.accounted_start (queues : Queues) : (EagerState.start queues).Accounted :=
  ⟨rfl, nofun, List.nodup_nil⟩

/-- Two READs succeed until the first poll. -/
def sampleEager : EagerEnv where
  post va := ⟨0, va.addr + 0x80000, none⟩
  polls _ := [(⟨[.success, .success], none⟩, 10)]
  inserts _ := true

def sampleUserArea : UserArea := ⟨⟨(0x1000, 0x3000), 0, 0, true⟩, by decide, by decide⟩

theorem eagerBatches_sample :
    eagerBatches [sampleUserArea] = [[⟨0x1000, by decide⟩, ⟨0x2000, by decide⟩]] := by
  decide +kernel

/-- Whatever fails during an eager resume (posts, waits, insertions), every page that it
allocates is given back as often as it was allocated, by the batch or when the handler is
dropped; a page that is inserted is kept until then, and it is inserted once. -/
theorem eager_pages_accounted (lookupPgTable : VirtAddr → Option PhysAddr) (info : AccessInfo)
    (env : EagerEnv) (queues : Queues) (areas : List UserArea)
    (hfresh : (eagerMachine lookupPgTable info env).Always (FreshPages lookupPgTable env)
      (.start queues) (eagerBatches areas)) :
    (eagerResume lookupPgTable info env (.start queues) areas).Accounted := by
  rw [eagerResume_eq]
  exact Machine.invariant EagerState.Accounted
    (fun _ _ hs hok => hs.fetchBatch info hok) (EagerState.accounted_start queues) hfresh

theorem eager_pages_accounted_two_pages :
    (eagerResume (sampleChild []).lookupPgTable ⟨0, 7, 1⟩ sampleEager
      (.start fun _ => .empty) [sampleUserArea]).Accounted := by
  refine eager_pages_accounted _ _ _ _ _ ?_
  rw [eagerBatches_sample]
  exact ⟨⟨by decide +kernel, fun _ _ _ => Finset.notMem_empty _⟩, trivial⟩

/-! ## The pages are those that faults would show -/

/-- Nothing in the buffer is mapped, or the wait of the batch confirms all its READs and
the NIC reports no failure. -/
def BatchReads (lookupPgTable : VirtAddr → Option PhysAddr) (info : AccessInfo) (env : EagerEnv)
    (s : EagerState) (addrBuf : List VirtAddr) : Prop :=
  (∀ va ∈ addrBuf, lookupPgTable va = none) ∨
    ∃ addrs remoteVa, addrBuf = addrs ++ [remoteVa] ∧
      (∀ p ∈ env.polls addrBuf, ∀ st ∈ p.1.arrivals, st = .success) ∧
      LastConfirms lookupPgTable info (env.polls addrBuf) s.queues
        (addrs.map fun addr => (addr, env.post addr)) remoteVa (env.post remoteVa)

/-- The page was read for the address, and its READ has finished. -/
def ReadFor (lookupPgTable : VirtAddr → Option PhysAddr) (s : EagerState)
    (z : VirtAddr × ℕ) : Prop :=
  ∃ rec ∈ s.records, rec.page = z.2 ∧ ∃ r, rec.read = some r ∧
    (s.queues rec.queue).finished[r.serial]? = some .success ∧
    lookupPgTable z.1 = some r.raddr

/-- Every page that is inserted was read for its address. -/
structure EagerState.Shown (lookupPgTable : VirtAddr → Option PhysAddr) (s : EagerState) :
    Prop where
  valid : ∀ id, (s.queues id).Valid
  read : ∀ z ∈ s.installed, ReadFor lookupPgTable s z

section Shown

variable {lookupPgTable : VirtAddr → Option PhysAddr} {info : AccessInfo} {env : EagerEnv}
  {s : EagerState} {addrBuf : List VirtAddr}

theorem returned_of_lastConfirms {polls : List (CqEvent × ℤ)} {queues : Queues}
    {addrs : List (VirtAddr × PostEnv)} {remoteVa : VirtAddr} {penv : PostEnv}
    (h : LastConfirms lookupPgTable info polls queues addrs remoteVa penv) :
    ∀ rec, some rec ∈ (batchReadRemotePages lookupPgTable info polls queues
      (addrs ++ [(remoteVa, penv)])).2 → rec.fate = .returned := by
  intro rec hrec
  rw [batchReadRemotePages_append] at hrec
  rcases List.mem_append.mp hrec with hrec | hrec
  · obtain ⟨entry, -, -, hreturned⟩ := of_mem_postUnsignaled hrec
    exact hreturned.fate
  · obtain ⟨src, hsrc, q, wc, hwait, -⟩ := h.confirmed
    rw [batchReadOne_last hsrc, lastPost, h.posted] at hrec
    dsimp only at hrec
    rw [hwait] at hrec
    obtain rfl := Option.some.inj (List.mem_singleton.mp hrec)
    rfl

theorem BatchReads.returned (h : BatchReads lookupPgTable info env s addrBuf)
    (hvalid : ∀ id, (s.queues id).Valid) :
    let read := batchReadRemotePages lookupPgTable info (env.polls addrBuf) s.queues
      (addrBuf.map fun addr => (addr, env.post addr))
    ∀ z ∈ answered addrBuf read.2, z.2.fate = .returned ∧ Verified read.1 z.2 := by
  intro read z hz
  have hall : List.Forall₂ (fun va => Answers lookupPgTable va (env.post va)) addrBuf read.2 :=
    answers_batch _ _ _
  have hrec : z.2 ∈ read.2.reduceOption := by
    rw [← map_snd_answered hall]
    exact List.mem_map_of_mem hz
  rcases h with hnone | ⟨addrs, remoteVa, rfl, hpolls, hlast⟩
  · -- no address of the buffer is mapped
    have hva : z.1 ∈ (answered addrBuf read.2).map Prod.fst := List.mem_map_of_mem hz
    rw [map_fst_answered hall] at hva
    obtain ⟨hmem, hmapped⟩ := List.mem_filter.mp hva
    rw [hnone z.1 hmem] at hmapped
    cases hmapped
  · have hverified := batchVerified_of_lastConfirms hvalid hpolls hlast
    have hreturned := returned_of_lastConfirms hlast
    have hbuf : addrs.map (fun addr => (addr, env.post addr)) ++ [(remoteVa, env.post remoteVa)] =
        (addrs ++ [remoteVa]).map fun addr => (addr, env.post addr) := by
      rw [List.map_append, List.map_singleton]
    rw [hbuf] at hverified hreturned
    have hfate := hreturned z.2 (List.reduceOption_mem_iff.mp hrec)
    exact ⟨hfate, hverified z.2 hrec hfate⟩

theorem ReadFor.mono {s s' : EagerState} {z : VirtAddr × ℕ} (h : ReadFor lookupPgTable s z)
    (hrecords : s.records ⊆ s'.records)
    (hfinished : ∀ id, (s.queues id).finished <+: (s'.queues id).finished) :
    ReadFor lookupPgTable s' z := by
  obtain ⟨rec, hrec, hpage, r, hr, hsuccess, hword⟩ := h
  refine ⟨rec, hrecords hrec, hpage, r, hr, ?_, hword⟩
  exact getElem?_mono (hfinished rec.queue) hsuccess

theorem EagerState.Shown.fetchBatch (hs : s.Shown lookupPgTable)
    (h : BatchReads lookupPgTable info env s addrBuf) :
    (fetchBatch lookupPgTable info env s addrBuf).Shown lookupPgTable := by
  have hread := h.returned hs.valid
  have hall : List.Forall₂ (fun va => Answers lookupPgTable va (env.post va)) addrBuf
      (batchReadRemotePages lookupPgTable info (env.polls addrBuf) s.queues
        (addrBuf.map fun addr => (addr, env.post addr))).2 := answers_batch _ _ _
  have hposts : Posts s.queues (batchReadRemotePages lookupPgTable info (env.polls addrBuf)
    s.queues (addrBuf.map fun addr => (addr, env.post addr))).1 _ :=
      posts_batchReadRemotePages _ _
  rw [fetchBatch_eq]
  constructor
  case valid => exact hposts.valid hs.valid
  case read =>
    intro z hz
    rcases List.mem_append.mp hz with hold | hnew
    · exact (hs.read z hold).mono (List.subset_append_left _ _) hposts.finished
    · obtain ⟨y, hy, rfl⟩ := List.mem_map.mp hnew
      have hmem := (List.mem_filter.mp hy).1
      obtain ⟨-, r, hr, hsuccess⟩ := hread y hmem
      exact ⟨y.2, List.mem_append_right _ (List.mem_map_of_mem hmem), rfl, r, hr, hsuccess,
        (recordOf_answered hall hmem).read r hr⟩

theorem installed_fetchBatch (hvalid : ∀ id, (s.queues id).Valid)
    (h : BatchReads lookupPgTable info env s addrBuf)
    (hinserts : ∀ va ∈ addrBuf, env.inserts va = true) :
    (fetchBatch lookupPgTable info env s addrBuf).installed.map Prod.fst =
      s.installed.map Prod.fst ++ addrBuf.filter fun va => (lookupPgTable va).isSome := by
  have hread := h.returned hvalid
  have hall : List.Forall₂ (fun va => Answers lookupPgTable va (env.post va)) addrBuf
      (batchReadRemotePages lookupPgTable info (env.polls addrBuf) s.queues
        (addrBuf.map fun addr => (addr, env.post addr))).2 := answers_batch _ _ _
  rw [fetchBatch_eq]
  dsimp only
  rw [List.map_append, List.map_map, ← map_fst_answered hall, List.filter_eq_self.mpr]
  · rfl
  · intro z hz
    have hva := List.mem_map_of_mem (f := Prod.fst) hz
    rw [map_fst_answered hall] at hva
    exact decide_eq_true ⟨(hread z hz).1, hinserts z.1 (List.mem_filter.mp hva).1⟩

theorem installed_run (bufs : List (List VirtAddr)) (hs : s.Shown lookupPgTable)
    (hall : (eagerMachine lookupPgTable info env).Always
      (BatchReads lookupPgTable info env) s bufs)
    (hinserts : ∀ va ∈ bufs.flatten, env.inserts va = true) :
    ((eagerMachine lookupPgTable info env).run s bufs).installed.map Prod.fst =
      s.installed.map Prod.fst ++ bufs.flatten.filter fun va => (lookupPgTable va).isSome := by
  induction bufs generalizing s with
  | nil => simp
  | cons buf bufs ih =>
    obtain ⟨hone, hrest⟩ := hall
    rw [List.flatten_cons] at hinserts
    have hnext : ((eagerMachine lookupPgTable info env).step s buf).1.Shown lookupPgTable :=
      hs.fetchBatch hone
    have hstep : ((eagerMachine lookupPgTable info env).step s buf).1.installed.map Prod.fst =
        s.installed.map Prod.fst ++ buf.filter fun va => (lookupPgTable va).isSome :=
      installed_fetchBatch hs.valid hone fun va hva => hinserts va (List.mem_append_left _ hva)
    rw [Machine.run_cons, ih hnext hrest fun va hva => hinserts va (List.mem_append_right _ hva),
      hstep, List.flatten_cons, List.filter_append, List.append_assoc]

theorem EagerState.shown_start {queues : Queues} (hvalid : ∀ id, (queues id).Valid) :
    (EagerState.start queues).Shown lookupPgTable := ⟨hvalid, nofun⟩

variable {queues : Queues} {areas : List UserArea}

theorem shown_eagerResume (hvalid : ∀ id, (queues id).Valid)
    (hreads : (eagerMachine lookupPgTable info env).Always
      (BatchReads lookupPgTable info env) (.start queues) (eagerBatches areas)) :
    (eagerResume lookupPgTable info env (.start queues) areas).Shown lookupPgTable := by
  rw [eagerResume_eq]
  exact Machine.invariant (EagerState.Shown lookupPgTable)
    (fun _ _ hs hok => hs.fetchBatch hok) (EagerState.shown_start hvalid) hreads

theorem installed_eagerResume (hvalid : ∀ id, (queues id).Valid)
    (hreads : (eagerMachine lookupPgTable info env).Always
      (BatchReads lookupPgTable info env) (.start queues) (eagerBatches areas))
    (hinserts : ∀ va ∈ areas.flatMap UserArea.pages, env.inserts va = true) :
    (eagerResume lookupPgTable info env (.start queues) areas).installed.map Prod.fst =
      (areas.flatMap UserArea.pages).filter fun va => (lookupPgTable va).isSome := by
  rw [← flatten_eagerBatches] at hinserts ⊢
  rw [eagerResume_eq, installed_run _ (EagerState.shown_start hvalid) hreads hinserts]
  rfl

end Shown

/-- An eager resume, if its batches are confirmed and nothing fails: the addresses that get
a page are those of the areas that are mapped, in order, and each page was read before the
process continues.  It is the page that a fault of the lazy child shows at the address if
and only if the word of the address has no read-only flag, which the batch does not strip. -/
theorem eager_resume_agrees (c : Child) (info : AccessInfo) (env : EagerEnv) (queues : Queues)
    (areas : List UserArea) (hvalid : ∀ id, (queues id).Valid)
    (hremote : ∀ va ∈ areas.flatMap UserArea.pages, ∀ w ∈ c.lookupPgTable va,
      w < 2 ^ 64 ∧ PhysAddr.isPrefetch w = false ∧ PhysAddr.isCache w = false)
    (hreads : (eagerMachine c.lookupPgTable info env).Always
      (BatchReads c.lookupPgTable info env) (.start queues) (eagerBatches areas))
    (hinserts : ∀ va ∈ areas.flatMap UserArea.pages, env.inserts va = true) :
    let s := eagerResume c.lookupPgTable info env (.start queues) areas
    s.installed.map Prod.fst =
        (areas.flatMap UserArea.pages).filter (fun va => (c.lookupPgTable va).isSome) ∧
      ∀ z ∈ s.installed, ∃ rec ∈ s.records, rec.page = z.2 ∧ ∃ r, rec.read = some r ∧
        (s.queues rec.queue).finished[r.serial]? = some .success ∧
        ∀ start, expectedReport c.source c ⟨z.1, start⟩ = .installed (.remote r.raddr) ↔
          ∃ w, c.lookupPgTable z.1 = some w ∧ PhysAddr.isRo w = false := by
  intro s
  have haddrs : s.installed.map Prod.fst = _ := installed_eagerResume hvalid hreads hinserts
  have hshown : s.Shown c.lookupPgTable := shown_eagerResume hvalid hreads
  refine ⟨haddrs, fun z hz => ?_⟩
  obtain ⟨rec, hrec, hpage, r, hr, hsuccess, hword⟩ := hshown.read z hz
  refine ⟨rec, hrec, hpage, r, hr, hsuccess, fun start => ?_⟩
  have hva : z.1 ∈ s.installed.map Prod.fst := List.mem_map_of_mem hz
  rw [haddrs] at hva
  obtain ⟨hlt, hprefetch, hcache⟩ := hremote z.1 (List.mem_filter.mp hva).1 _ hword
  have hsource : c.source z.1.pageKey = some (PhysAddr.decode r.raddr) := by
    rw [source_pageKey, hword]
    rfl
  have hplain := PhysAddr.decode_eq_self_iff hlt hprefetch hcache
  rw [expectedReport, hsource, hword]
  simp [hplain]

theorem lastConfirms_sample :
    LastConfirms (sampleChild []).lookupPgTable ⟨0, 7, 1⟩ [(⟨[.success, .success], none⟩, 10)]
      (fun _ => .empty) [(⟨0x1000, by decide⟩, ⟨0, 0x81000, none⟩)] ⟨0x2000, by decide⟩
      ⟨0, 0x82000, none⟩ where
  posted := rfl
  confirmed := ⟨0x6000, by decide +kernel, _, (1, .success),
    Prod.ext rfl (by decide +kernel), by decide +kernel⟩
  earlier entry hentry _ := by
    cases List.mem_singleton.mp hentry
    exact ⟨rfl, rfl⟩

/-- Two pages, with words that have no flag. -/
theorem eager_resume_agrees_two_pages :
    let c := sampleChild []
    let s := eagerResume c.lookupPgTable ⟨0, 7, 1⟩ sampleEager (.start fun _ => .empty)
      [sampleUserArea]
    s.installed.map Prod.fst =
      ([sampleUserArea].flatMap UserArea.pages).filter fun va => (c.lookupPgTable va).isSome := by
  intro c s
  have hreads : (eagerMachine c.lookupPgTable ⟨0, 7, 1⟩ sampleEager).Always
      (BatchReads c.lookupPgTable ⟨0, 7, 1⟩ sampleEager) (.start fun _ => .empty)
      (eagerBatches [sampleUserArea]) := by
    rw [eagerBatches_sample]
    exact ⟨Or.inr ⟨[⟨0x1000, by decide⟩], ⟨0x2000, by decide⟩, rfl, by decide +kernel,
      lastConfirms_sample⟩, trivial⟩
  exact (eager_resume_agrees c ⟨0, 7, 1⟩ sampleEager (fun _ => .empty) [sampleUserArea]
    (fun _ => SendQueue.valid_empty) (by decide +kernel) hreads fun _ _ => rfl).1

end Mitosis.Fetch
