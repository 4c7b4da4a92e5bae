import Mitosis.Fetch.Waits
import Mitosis.Support.QueueHistory

/-!
# The fetches of a fault

The fault handler and the fetch paths model the same calls of
`read_remote_page`.  The handler follows one child with its page table and the
contents of its pages, and of the queue pair of the core it keeps the
outstanding READs only.  The fetch paths keep the history of all queue pairs
and what became of each page, but no contents.

As long as only signaled READs are in flight on the core, both agree: they post
the same READ, their waits end alike, and they return the same page.
-/

namespace Mitosis.Fetch

open Mitosis.OsNetwork
open Mitosis.PageFault
open Mitosis.Prefetcher (PageAllocator Executor)
open Mitosis.RemoteMapping
open Mitosis.RemotePaging
open Mitosis.Support

/-! ## One wait on both models of the queue pair -/

/-- The queue pair of a core without its history. -/
def queuePair (q : CoreQueue) : QueuePair := ⟨q.works.length, q.forget⟩

example : (SendQueue.empty : CoreQueue).Signaled ∧ queuePair SendQueue.empty = ⟨0, [], []⟩ :=
  ⟨SendQueue.signaled_empty, rfl⟩

theorem queuePair_post {q : CoreQueue} (h : q.Signaled) (own : ReadRequest)
    (hserial : own.serial = q.works.length) :
    Conn.post (queuePair q) own.endpoint own.raddr own.rkey own.laddr own.size =
      queuePair (q.post own true) := by
  have hown : (⟨(queuePair q).posted, own.endpoint, own.raddr, own.rkey, own.laddr, own.size⟩ :
      ReadRequest) = own := by
    rw [queuePair, ← hserial]
  rw [Conn.post, hown, queuePair, queuePair, h.toValid.forget_post, SendQueue.post_works,
    List.length_append]
  rfl

theorem queuePair_arrived {q : CoreQueue} (h : q.Signaled) (e : CqEvent) :
    (arrived q e).Signaled ∧
      queuePair (arrived q e) =
        { queuePair q with cq := (queuePair q).cq.completeAll e.arrivals } := by
  obtain ⟨hsignaled, hforget⟩ := h.completeAll quiet e.arrivals
  have hcomp : SendQueue.Completes quiet q (arrived q e) :=
    SendQueue.completes_completeAll q e.arrivals
  refine ⟨hsignaled, ?_⟩
  rw [queuePair, hcomp.works, hforget]
  rfl

theorem pollConn_alike (q : CoreQueue) (e : CqEvent) (h : q.Signaled) :
    PollsAlike SendQueue.Signaled queuePair Prod.snd Prod.snd (DCConn.poll q e)
      (Conn.poll (queuePair q) e) := by
  obtain ⟨hsignaled, hpair⟩ := queuePair_arrived h e
  unfold DCConn.poll Conn.poll
  cases e.pollError with
  | some err => exact ⟨hsignaled, hpair.symm, rfl⟩
  | none =>
    obtain ⟨hpolled, hworks, hforget, hstatus⟩ := hsignaled.poll
    have hcq : (queuePair q).cq.completeAll e.arrivals = (arrived q e).forget :=
      (congrArg QueuePair.cq hpair).symm
    have hposted : (queuePair q).posted = (arrived q e).works.length :=
      (congrArg QueuePair.posted hpair).symm
    dsimp only
    rw [hcq, hposted, ← hworks]
    rcases hp : (arrived q e).poll with ⟨q', c⟩
    rcases hp' : (arrived q e).forget.poll with ⟨cq', wc⟩
    rw [hp, hp'] at hforget hstatus
    rw [hp] at hpolled
    obtain rfl : cq' = q'.forget := hforget
    cases c with
    | none =>
      cases wc with
      | none => exact ⟨hpolled, rfl, rfl⟩
      | some wc => cases hstatus
    | some c =>
      cases wc with
      | none => cases hstatus
      | some wc => exact ⟨hpolled, rfl, congrArg some hstatus⟩

theorem pollDevice_alike (q : CoreQueue) (e : CqEvent) (h : q.Signaled) :
    PollsAlike SendQueue.Signaled queuePair Prod.snd Prod.snd (DCRemoteDevice.poll q e)
      (RemoteDevice.poll (queuePair q) e) := by
  unfold DCRemoteDevice.poll RemoteDevice.poll
  obtain ⟨q', hq', ⟨hp, hp'⟩ | ⟨c, wc, hstatus, hp, hp'⟩ | ⟨err, err', hp, hp'⟩⟩ :=
    (pollConn_alike q e h).cases
  · rw [hp, hp']
    exact ⟨hq', rfl, rfl⟩
  · rw [hp, hp']
    dsimp only
    rw [hstatus]
    split
    · exact ⟨hq', rfl, congrArg (some ∘ some) hstatus⟩
    · exact ⟨hq', rfl, rfl⟩
  · rw [hp, hp']
    exact ⟨hq', rfl, rfl⟩

theorem wait_alike {ε δ : Type} {poll : CoreQueue → CqEvent → CoreQueue × Poll (ℕ × WCStatus) ε}
    {poll' : QueuePair → CqEvent → QueuePair × Poll WorkCompletion δ}
    (hpoll : ∀ q e, q.Signaled → PollsAlike SendQueue.Signaled queuePair Prod.snd Prod.snd
      (poll q e) (poll' (queuePair q) e))
    {q : CoreQueue} (h : q.Signaled) (polls : List (CqEvent × ℤ)) :
    ∃ q', q'.Signaled ∧
      ((∃ c wc, blockOn (Timeout.poll poll timeoutUsec) q (polls ++ [expiry]) =
          (q', some (.ok c)) ∧
        blockOn (Timeout.poll poll' timeoutUsec) (queuePair q) (polls ++ [expiry]) =
          (queuePair q', some (.ok wc))) ∨
      ∃ err err', blockOn (Timeout.poll poll timeoutUsec) q (polls ++ [expiry]) =
          (q', some (.error err)) ∧
        blockOn (Timeout.poll poll' timeoutUsec) (queuePair q) (polls ++ [expiry]) =
          (queuePair q', some (.error err'))) := by
  obtain ⟨q', r, r', hw, hw', hq', hr⟩ :=
    blockOn_alike (fun q e h => timeout_alike (hpoll q e.1 h)) (polls ++ [expiry]) h
  obtain ⟨_, end', hend⟩ := exists_wait_result poll polls q
  obtain rfl : r = some end' := congrArg Prod.snd (hw.symm.trans hend)
  refine ⟨q', hq', ?_⟩
  rw [hw, hw']
  rcases r' with _ | (err' | wc)
  · cases hr
  · rcases end' with err | c
    · exact Or.inr ⟨err, err', rfl, rfl⟩
    · cases hr
  · rcases end' with err | c
    · cases hr
    · exact Or.inl ⟨c, wc, rfl, rfl⟩

/-! ## Reading a page -/

/-- What a fetch path makes of a call, and the queue pair and the page that the
fault handler is left with. -/
structure Agrees (id : QueueId) (result : Queues × List FetchRecord) (qp : QueuePair)
    (page : Option ℕ) : Prop where
  signaled : (result.1 id).Signaled
  queue : qp = queuePair (result.1 id)
  returned : page.toList = (result.2.filter (·.fate = .returned)).map (·.page)

/-- The queue pair on which a fault of the child reads without prefetching. -/
def coreQueue (useRc : Bool) (cpu : ℕ) (info : AccessInfo) : QueueId :=
  if useRc then .rc cpu info.macId else .dc cpu

/-- What a fetch sees of a fault on a core. -/
def fetchEnv (alloc : PageAllocator) (cpu : ℕ) (c : Child) (env : FaultEnv) : FetchEnv where
  cpu := cpu
  page := (c.exec.allocPage alloc).2
  postError := env.postError
  polls := env.polls

section Reads

variable {alloc : PageAllocator} {cpu : ℕ} {queues : Queues} {c c' : Child} {addr : VirtAddr}
  {env : FaultEnv} {page : Option ℕ}

theorem agrees_update {id : QueueId} {q : CoreQueue} (h : q.Signaled)
    {records : List FetchRecord}
    (hreturned : page.toList = (records.filter (·.fate = .returned)).map (·.page)) :
    Agrees id (Function.update queues id q, records) (queuePair q) page where
  signaled := by simpa using h
  queue := by simp
  returned := hreturned

/-- `read_remote_page` without the `prefetch` feature. -/
theorem readRemotePage_agrees (useRc : Bool) (addr : VirtAddr)
    (h : (queues (coreQueue useRc cpu c.accessInfo)).Signaled)
    (hqp : c.qp = queuePair (queues (coreQueue useRc cpu c.accessInfo))) :
    ∃ c' page, c.readRemotePage alloc useRc addr env = .ok (c', page) ∧
      Agrees (coreQueue useRc cpu c.accessInfo)
        (readRemotePage useRc c.lookupPgTable queues addr c.accessInfo
          (fetchEnv alloc cpu c env)) c'.qp page := by
  unfold readRemotePage Child.readRemotePage
  cases c.lookupPgTable addr with
  | none => exact ⟨c, none, rfl, h, hqp, rfl⟩
  | some remotePa =>
    rcases halloc : c.exec.allocPage alloc with ⟨exec, n⟩
    have henv : fetchEnv alloc cpu c env = ⟨⟨cpu, n, env.postError⟩, env.polls⟩ := by
      rw [fetchEnv, halloc]
    rw [henv]
    unfold Fetch.remoteRead RemotePaging.remoteRead RemoteDevice.read
    dsimp only [Child.readCall]
    rw [← coreQueue]
    generalize coreQueue useRc cpu c.accessInfo = id at h hqp ⊢
    cases env.postError with
    | some err => exact ⟨_, none, rfl, h, hqp, rfl⟩
    | none =>
      have hpost := queuePair_post h (nextRead (queues id) (endpointOf useRc c.accessInfo)
        (PhysAddr.decode remotePa) c.accessInfo.rkey n) rfl
      dsimp only [nextRead] at hpost ⊢
      rw [hqp, hpost]
      obtain ⟨q', hq', ⟨d, wc, hw, hw'⟩ | ⟨err, err', hw, hw'⟩⟩ :=
        wait_alike pollDevice_alike (h.post _) env.polls
      · rw [hw', waitDevice, hw]
        exact ⟨_, _, rfl, agrees_update hq' rfl⟩
      · rw [hw', waitDevice, hw]
        cases err' <;> exact ⟨_, none, rfl, agrees_update hq' rfl⟩

/-- The entry that the version with the `prefetch` feature finds for an address. -/
def entryAt (c : Child) (addr : VirtAddr) : Option PhysAddr :=
  (c.descriptor.pageTable.findL1PageIdx c.exec.heap addr).map fun slot =>
    (c.exec.heap.node slot.1).entries slot.2

theorem awaitRead_agrees {exec : Executor} {remotePa : PhysAddr} {n : ℕ}
    (h : (queues (.dc cpu)).Signaled) (hqp : c.qp = queuePair (queues (.dc cpu)))
    (hread : c.awaitRead exec (c.demandRead n remotePa) env = .ok (c', page)) :
    Agrees (.dc cpu)
      (Function.update queues (.dc cpu)
          (waitConn ((queues (.dc cpu)).post (c.demandRead n remotePa) true) env.polls).1,
        [⟨.dc cpu, n, some (c.demandRead n remotePa),
          fateOf (waitConn ((queues (.dc cpu)).post (c.demandRead n remotePa) true)
            env.polls).2⟩])
      c'.qp page := by
  have hserial : (c.demandRead n remotePa).serial = (queues (.dc cpu)).works.length := by
    rw [Child.demandRead, hqp]
    rfl
  unfold Child.awaitRead Child.waitRead at hread
  rw [hqp, queuePair_post h _ hserial] at hread
  obtain ⟨q', hq', ⟨d, wc, hw, hw'⟩ | ⟨err, err', hw, hw'⟩⟩ :=
    wait_alike pollConn_alike (h.post (c.demandRead n remotePa)) env.polls
  · rw [hw'] at hread
    cases hread
    rw [waitConn, hw]
    exact agrees_update hq' rfl
  · rw [hw'] at hread
    cases hread
    rw [waitConn, hw]
    exact agrees_update hq' rfl

/-- `read_remote_page` with the `prefetch` feature, if it returns: it takes a page
that was read ahead and leaves the queue pair alone, or both agree. -/
theorem readRemotePagePrefetch_agrees (h : (queues (.dc cpu)).Signaled)
    (hqp : c.qp = queuePair (queues (.dc cpu)))
    (hread : c.readRemotePagePrefetch alloc addr env = .ok (c', page)) :
    (∃ w, entryAt c addr = some w ∧ PhysAddr.isPrefetch w = true ∧ c'.qp = c.qp) ∨
      Agrees (.dc cpu)
        (readRemotePagePrefetch (entryAt c) queues addr c.accessInfo (fetchEnv alloc cpu c env))
        c'.qp page := by
  unfold Child.readRemotePagePrefetch at hread
  unfold readRemotePagePrefetch entryAt
  cases hfind : c.descriptor.pageTable.findL1PageIdx c.exec.heap addr with
  | none =>
    rw [hfind] at hread
    cases hread
    exact Or.inr ⟨h, hqp, rfl⟩
  | some found =>
    obtain ⟨pt, idx⟩ := found
    rw [hfind] at hread
    dsimp only [Option.map_some] at hread ⊢
    split at hread
    · next hbit =>
        obtain ⟨x, -, -, rfl, -⟩ := Child.takePrefetched_eq_ok hread
        exact Or.inl ⟨_, rfl, hbit, rfl⟩
    · next hbit =>
        rw [if_neg hbit]
        simp only [bind, Except.bind] at hread
        split at hread
        · cases hread
        · next hpost =>
            have hnone : env.postError = none := by simpa using hpost
            have hown : ∀ raddr n, nextRead (queues (.dc cpu)) (some c.accessInfo.accessHandler)
                (PhysAddr.decode raddr) c.accessInfo.rkey n = c.demandRead n raddr := by
              intro raddr n
              rw [nextRead, Child.demandRead, hqp]
              rfl
            dsimp only [fetchEnv]
            rw [hnone]
            dsimp only
            rw [hown]
            split at hread
            · cases hread
            · split at hread
              · cases hread
              · exact Or.inr (awaitRead_agrees h hqp hread)

end Reads

end Mitosis.Fetch
