import Mitosis.Fetch.Waits
import Mitosis.Prefetcher.Executor

/-!
# The remote address of a READ

A word of the page table carries flags in its low bits, and a parent with
copy-on-write sets the read-only one.  Each path strips the flags itself or
leaves that to `remote_read`, except the batch of eager resume, which posts the
word as it is.
-/

namespace Mitosis.Fetch

open Mitosis.OsNetwork
open Mitosis.Prefetcher
open Mitosis.RemoteMapping
open Mitosis.RemotePaging

/-- A READ of the 4096 bytes at a remote address. -/
def ReadsAt (raddr : PhysAddr) (r : ReadRequest) : Prop := r.raddr = raddr ∧ r.size = 4096

/-- Every READ that was posted for a page reads it there. -/
def RecordsReadAt (raddr : PhysAddr) (records : List FetchRecord) : Prop :=
  ∀ rec ∈ records, ∀ r, rec.read = some r → ReadsAt raddr r

section Paths

variable {lookupPgTable : VirtAddr → Option PhysAddr} {queues : Queues}
  {remoteVa : VirtAddr} {info : AccessInfo} {w : PhysAddr}

theorem readRemotePage_readsAt (useRc : Bool) (env : FetchEnv)
    (hw : lookupPgTable remoteVa = some w) :
    RecordsReadAt (PhysAddr.decode w)
      (readRemotePage useRc lookupPgTable queues remoteVa info env).2 := by
  intro rec hrec r hr
  rw [readRemotePage, hw] at hrec
  obtain rfl := List.mem_singleton.mp hrec
  unfold remoteRead at hr
  dsimp only at hr
  cases hpost : env.postError with
  | some err =>
    rw [hpost] at hr
    cases hr
  | none =>
    rw [hpost] at hr
    obtain rfl := Option.some.inj hr
    exact ⟨rfl, rfl⟩

theorem readRemotePagePrefetch_readsAt (env : FetchEnv)
    (hw : lookupPgTable remoteVa = some w) :
    RecordsReadAt (PhysAddr.decode w)
      (readRemotePagePrefetch lookupPgTable queues remoteVa info env).2 := by
  intro rec hrec r hr
  rw [readRemotePagePrefetch, hw] at hrec
  dsimp only at hrec
  split at hrec
  · cases hrec
  · cases hpost : env.postError with
    | some err =>
      rw [hpost] at hrec
      obtain rfl := List.mem_singleton.mp hrec
      cases hr
    | none =>
      rw [hpost] at hrec
      obtain rfl := List.mem_singleton.mp hrec
      obtain rfl := Option.some.inj hr
      exact ⟨rfl, rfl⟩

theorem executeReq_readsAt (alloc : PageAllocator) {x : Executor} {req : PageEntry}
    (hw : (x.heap.node req.page).entries req.index = w)
    (hremote : PhysAddr.bottomBit w = false) :
    ∃ r, (x.executeReq alloc req).prefetcher.conn.cq.inFlight =
        x.prefetcher.conn.cq.inFlight ++ [r] ∧
      ReadsAt (PhysAddr.decode w) r := by
  have hnot : ¬ PhysAddr.bottomBit w = true := ne_true_of_eq_false hremote
  refine ⟨⟨x.prefetcher.conn.posted, some x.prefetcher.accessInfo.accessHandler,
    PhysAddr.realAddr w, x.prefetcher.accessInfo.rkey, alloc.page x.allocated, 4096⟩, ?_,
    rfl, rfl⟩
  unfold Executor.executeReq
  rw [hw]
  dsimp only
  rw [if_neg hnot]
  rfl

theorem batch_raddr (polls : List (CqEvent × ℤ)) {addrList : List (VirtAddr × PostEnv)}
    {i : ℕ} {remoteVa : VirtAddr} {env : PostEnv} {rec : FetchRecord} {r : ReadRequest}
    (haddr : addrList[i]? = some (remoteVa, env))
    (hrec : (batchReadRemotePages lookupPgTable info polls queues addrList).2[i]? =
      some (some rec))
    (hr : rec.read = some r) : lookupPgTable remoteVa = some r.raddr ∧ r.size = 4096 := by
  induction addrList generalizing queues i with
  | nil => simp at haddr
  | cons entry rest ih =>
    cases i with
    | succ i => exact ih haddr hrec
    | zero =>
      obtain rfl : entry = (remoteVa, env) := by simpa using haddr
      have hone : (batchReadOne lookupPgTable info polls rest.isEmpty queues remoteVa
          env).2 = some rec := by simpa [batchReadRemotePages] using hrec
      unfold batchReadOne at hone
      cases hw : lookupPgTable remoteVa with
      | none =>
        rw [hw] at hone
        cases hone
      | some src =>
        rw [hw] at hone
        dsimp only at hone
        cases hpost : env.postError with
        | some err =>
          rw [hpost] at hone
          split at hone
          all_goals
            obtain rfl := Option.some.inj hone
            cases hr
        | none =>
          rw [hpost] at hone
          split at hone
          all_goals
            obtain rfl := Option.some.inj hone
            obtain rfl := Option.some.inj hr
            exact ⟨rfl, rfl⟩

end Paths

/-- Every READ of the batch for a page with this word reads it at the decoded
address, for every table, queue state and schedule. -/
def BatchReadsAt (w : PhysAddr) : Prop :=
  ∀ (lookupPgTable : VirtAddr → Option PhysAddr) (queues : Queues) (info : AccessInfo)
    (polls : List (CqEvent × ℤ)) (addrList : List (VirtAddr × PostEnv)) (i : ℕ)
    (remoteVa : VirtAddr) (env : PostEnv) (rec : FetchRecord) (r : ReadRequest),
    addrList[i]? = some (remoteVa, env) → lookupPgTable remoteVa = some w →
    (batchReadRemotePages lookupPgTable info polls queues addrList).2[i]? = some (some rec) →
    rec.read = some r → ReadsAt (PhysAddr.decode w) r

/-- For every word that is neither prefetch- nor cache-marked, all fetch paths
but the batch read the page at the decoded address, and the batch does so if and
only if the word is not marked read-only. -/
theorem fetch_source_iff_not_readOnly {w : PhysAddr} (hw : w < 2 ^ 64)
    (hprefetch : PhysAddr.isPrefetch w = false) (hcache : PhysAddr.isCache w = false) :
    (∀ lookupPgTable queues remoteVa info env, lookupPgTable remoteVa = some w →
      (∀ useRc, RecordsReadAt (PhysAddr.decode w)
        (readRemotePage useRc lookupPgTable queues remoteVa info env).2) ∧
      (∀ useRc, RecordsReadAt (PhysAddr.decode w)
        (readRemotePageWoPrefetch useRc lookupPgTable queues remoteVa info env).2) ∧
      RecordsReadAt (PhysAddr.decode w)
        (readRemotePagePrefetch lookupPgTable queues remoteVa info env).2) ∧
    (∀ (alloc : PageAllocator) (x : Executor) (req : PageEntry),
      (x.heap.node req.page).entries req.index = w →
      ∃ r, (x.executeReq alloc req).prefetcher.conn.cq.inFlight =
          x.prefetcher.conn.cq.inFlight ++ [r] ∧ ReadsAt (PhysAddr.decode w) r) ∧
    (BatchReadsAt w ↔ PhysAddr.isRo w = false) := by
  refine ⟨?_, fun alloc x req h => executeReq_readsAt alloc h hprefetch, ?_⟩
  · intro lookupPgTable queues remoteVa info env hlookup
    exact ⟨fun useRc => readRemotePage_readsAt useRc env hlookup,
      fun useRc => readRemotePage_readsAt useRc env hlookup,
      readRemotePagePrefetch_readsAt env hlookup⟩
  · rw [← PhysAddr.decode_eq_self_iff hw hprefetch hcache]
    constructor
    · intro h
      -- a batch of one page, whose READ the driver takes
      have hread := h (fun _ => some w) (fun _ => .empty) ⟨0, 0, 0⟩ [] [(⟨0, by decide⟩, ⟨0, 0, none⟩)]
        0 ⟨0, by decide⟩ ⟨0, 0, none⟩ _ _ rfl rfl rfl rfl
      exact hread.1.symm
    · intro hdecode lookupPgTable queues info polls addrList i remoteVa env rec r haddr hlookup
        hrec hr
      obtain ⟨hraddr, hsize⟩ := batch_raddr polls haddr hrec hr
      rw [hlookup] at hraddr
      exact ⟨(Option.some.inj hraddr).symm.trans hdecode.symm, hsize⟩

/-- A word without flags. -/
theorem fetch_source_iff_not_readOnly_plain : BatchReadsAt 0x5000 :=
  (fetch_source_iff_not_readOnly (by decide) (by decide) (by decide)).2.2.mpr (by decide)

/-- A read-only page of the parent: the plain path reads it at `0x5000`, the
batch four bytes further. -/
theorem batch_reads_shifted_page :
    let w := PhysAddr.encode 0x5000 PhysAddrBitFlag.readOnly.bits
    let info : AccessInfo := ⟨0, 7, 1⟩
    let va : VirtAddr := ⟨0x1000, by decide⟩
    (readRemotePage false (fun _ => some w) (fun _ => .empty) va info
        ⟨⟨0, 0x8000, none⟩, [(⟨[.success], none⟩, 10)]⟩).2 =
      [⟨.dc 0, 0x8000, some ⟨0, some 0, 0x5000, 7, 0x8000, 4096⟩, .returned⟩] ∧
    (batchReadRemotePages (fun _ => some w) info [(⟨[.success], none⟩, 10)] (fun _ => .empty)
        [(va, ⟨0, 0x8000, none⟩)]).2 =
      [some ⟨.dc 0, 0x8000, some ⟨0, some 0, 0x5004, 7, 0x8000, 4096⟩, .returned⟩] := by
  decide +kernel

end Mitosis.Fetch
