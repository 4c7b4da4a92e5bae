import Mitosis.Fetch.Batch
import Mitosis.Support.Machine

/-!
# Pages given back by a fetch

Every fetch path frees the page it allocated if its wait fails.  A wait also
fails when the time is over, or when it meets the completion of another READ,
and then the READ into the page may still be outstanding.  The machine below
runs the fetch paths of all cores over one page allocator.

Which waits end so is said by the schedule: a poll fails or the time is over while
the own READ is in flight, or the checked wait finds the completion of another READ
that reports an error.
-/

namespace Mitosis.Fetch

open Mitosis.OsNetwork
open Mitosis.PageFault (expiry exists_wait_result)
open Mitosis.RemoteMapping
open Mitosis.RemotePaging
open Mitosis.Support

/-- The queue pairs, and the pages that are allocated. -/
structure FetchState where
  queues : Queues
  inUse : List ℕ

/-- A call of a fetch path or of `execute_reqs`, or a step between the calls:
work finishes, or the owner of a page gives it back. -/
inductive FetchAction where
  | finish (id : QueueId) (status : WCStatus)
  | reclaim (page : ℕ)
  | readRemotePage (useRc : Bool) (lookupPgTable : VirtAddr → Option PhysAddr)
      (remoteVa : VirtAddr) (info : AccessInfo) (env : FetchEnv)
  | readRemotePageWoPrefetch (useRc : Bool) (lookupPgTable : VirtAddr → Option PhysAddr)
      (remoteVa : VirtAddr) (info : AccessInfo) (env : FetchEnv)
  | readRemotePagePrefetch (lookupPgTable : VirtAddr → Option PhysAddr)
      (remoteVa : VirtAddr) (info : AccessInfo) (env : FetchEnv)
  | batchReadRemotePages (lookupPgTable : VirtAddr → Option PhysAddr) (info : AccessInfo)
      (polls : List (CqEvent × ℤ)) (addrList : List (VirtAddr × PostEnv))
  | executeReqs (child : ℕ) (info : AccessInfo) (reqs : List (PhysAddr × ℕ))

/-- The queue pairs after an action, and the pages that were fetched. -/
def FetchAction.fetch (queues : Queues) : FetchAction → Queues × List FetchRecord
  | .finish id status =>
    (Function.update queues id ((queues id).complete quiet status), [])
  | .reclaim _ => (queues, [])
  | .readRemotePage useRc lookupPgTable remoteVa info env =>
    Fetch.readRemotePage useRc lookupPgTable queues remoteVa info env
  | .readRemotePageWoPrefetch useRc lookupPgTable remoteVa info env =>
    Fetch.readRemotePageWoPrefetch useRc lookupPgTable queues remoteVa info env
  | .readRemotePagePrefetch lookupPgTable remoteVa info env =>
    Fetch.readRemotePagePrefetch lookupPgTable queues remoteVa info env
  | .batchReadRemotePages lookupPgTable info polls addrList =>
    let result := Fetch.batchReadRemotePages lookupPgTable info polls queues addrList
    (result.1, result.2.reduceOption)
  | .executeReqs child info reqs => Fetch.executeReqs child info queues reqs

/-- The pages that are allocated after an action. -/
def FetchAction.held (inUse : List ℕ) (records : List FetchRecord) : FetchAction → List ℕ
  | .reclaim page => inUse.filter (· ≠ page)
  | _ => (records.filter (·.fate ≠ .freed)).map (·.page) ++ inUse

def fetchMachine : Machine FetchState FetchAction (List FetchRecord) where
  step s a :=
    let (queues, records) := a.fetch s.queues
    (⟨queues, a.held s.inUse records⟩, records)

/-- No READ into the page is outstanding. -/
def NotOutstanding (queues : Queues) (page : ℕ) : Prop :=
  ∀ id, ∀ w ∈ (queues id).inFlight, w.1.laddr ≠ page

/-- The allocator hands out pages that are not allocated, each of them once, and
the owner of a page gives it back when no READ into it is outstanding. -/
def Allocates (s : FetchState) (a : FetchAction) : Prop :=
  ((fetchMachine.step s a).2.map (·.page)).Nodup ∧
  (∀ rec ∈ (fetchMachine.step s a).2, rec.page ∉ s.inUse) ∧
  ∀ page, a = .reclaim page → NotOutstanding s.queues page

/-- No READ is outstanding into a page that the action frees. -/
def FreesSafely (s : FetchState) (a : FetchAction) : Prop :=
  ∀ rec ∈ (fetchMachine.step s a).2, rec.fate = .freed →
    NotOutstanding (fetchMachine.step s a).1.queues rec.page

/-- The READ that was posted into a freed page has finished. -/
def FreesFinished (s : FetchState) (a : FetchAction) : Prop :=
  ∀ rec ∈ (fetchMachine.step s a).2, rec.fate = .freed → ∀ r ∈ rec.read,
    r.serial < ((fetchMachine.step s a).1.queues rec.queue).finished.length

/-- The queue pair on which `remote_read` posts. -/
abbrev readQueue (useRc : Bool) (info : AccessInfo) (env : FetchEnv) : QueueId :=
  if useRc then .rc env.cpu info.macId else .dc env.cpu

/-- The wait of a fetch path does not fail while the READ it has posted is outstanding.  The
completions that are waiting and the work in flight before that READ are those of the queue
pair before the call, for the batch with the READs of the earlier addresses. -/
def WaitsForOwn (s : FetchState) : FetchAction → Prop
  | .readRemotePage useRc lookupPgTable remoteVa info env
  | .readRemotePageWoPrefetch useRc lookupPgTable remoteVa info env =>
    lookupPgTable remoteVa ≠ none → env.postError = none →
      ¬ GivesUp (· = .success) (oldest (s.queues (readQueue useRc info env)))
        (s.queues (readQueue useRc info env)).signals env.polls
  | .readRemotePagePrefetch lookupPgTable remoteVa _ env =>
    ∀ remotePa, lookupPgTable remoteVa = some remotePa → ¬ PhysAddr.isPrefetch remotePa →
      env.postError = none →
        ¬ GivesUp (fun _ => true) (oldest (s.queues (.dc env.cpu)))
          (s.queues (.dc env.cpu)).signals env.polls
  | .batchReadRemotePages lookupPgTable _ polls addrList =>
    ∀ addrs remoteVa env, addrList = addrs ++ [(remoteVa, env)] →
      lookupPgTable remoteVa ≠ none → env.postError = none →
        ¬ GivesUp (fun _ => true) (oldest (s.queues (.dc env.cpu)))
          ((s.queues (.dc env.cpu)).signals ++
            List.replicate (addrs.countP (PostsOn lookupPgTable env.cpu)) false) polls
  | .finish _ _ | .reclaim _ | .executeReqs _ _ _ => True

/-- READs are outstanding into allocated pages only. -/
def TargetsInUse (s : FetchState) : Prop :=
  ∀ id, ∀ w ∈ (s.queues id).inFlight, w.1.laddr ∈ s.inUse

theorem posts_step (s : FetchState) (a : FetchAction) :
    Posts s.queues (fetchMachine.step s a).1.queues (fetchMachine.step s a).2 := by
  cases a with
  | finish id status =>
    exact posts_of_idle (fun _ hrec => nomatch hrec)
      (waits_of_completes (SendQueue.completes_complete _ status))
  | reclaim page => exact Posts.refl _
  | readRemotePage useRc lookupPgTable remoteVa info env => exact posts_readRemotePage env
  | readRemotePageWoPrefetch useRc lookupPgTable remoteVa info env =>
    exact posts_readRemotePage env
  | readRemotePagePrefetch lookupPgTable remoteVa info env =>
    exact posts_readRemotePagePrefetch env
  | batchReadRemotePages lookupPgTable info polls addrList =>
    exact posts_batchReadRemotePages polls addrList
  | executeReqs child info reqs => exact posts_executeReqs child reqs

section Step

variable {s : FetchState} {a : FetchAction}

variable {id : QueueId}

theorem outstanding_cases {w : ReadRequest × Bool}
    (hw : w ∈ ((fetchMachine.step s a).1.queues id).inFlight) :
    w ∈ (s.queues id).inFlight ∨
      ∃ rec ∈ (fetchMachine.step s a).2, w.1.laddr = rec.page ∧ rec.read = some w.1 ∧
        ((fetchMachine.step s a).1.queues rec.queue).finished.length ≤ w.1.serial := by
  have hposts := posts_step s a
  obtain ⟨k, hle, hk⟩ := SendQueue.mem_inFlight_iff.mp hw
  by_cases hlt : k < (s.queues id).works.length
  · left
    obtain ⟨more, hmore⟩ := hposts.works id
    rw [← hmore, List.getElem?_append_left hlt] at hk
    exact SendQueue.mem_inFlight_iff.mpr ⟨k, (hposts.finished id).length_le.trans hle, hk⟩
  · right
    obtain ⟨rec, hrec, rfl, hread, hserial⟩ := hposts.new id k w hk (Nat.le_of_not_lt hlt)
    exact ⟨rec, hrec, (hposts.own rec hrec w.1 hread).1, hread, by rwa [hserial]⟩

/-- If READs are outstanding into allocated pages only, an action frees its pages
safely just when the READs into them have finished. -/
theorem freesSafely_iff (hs : TargetsInUse s) (ha : Allocates s a) :
    FreesSafely s a ↔ FreesFinished s a := by
  constructor
  · intro hsafe rec hrec hfreed r hr
    obtain ⟨hpage, -, signaled, hwork⟩ := (posts_step s a).own rec hrec r hr
    by_contra hle
    refine hsafe rec hrec hfreed rec.queue (r, signaled) ?_ hpage
    exact SendQueue.mem_inFlight_iff.mpr ⟨r.serial, Nat.le_of_not_lt hle, hwork⟩
  · intro hfinished rec hrec hfreed id w hw hpage
    obtain ⟨hnodup, hfresh, -⟩ := ha
    rcases outstanding_cases hw with hold | ⟨rec', hrec', hpage', hread, hle⟩
    · -- an older READ is into an allocated page, and this one was not allocated
      exact hfresh rec hrec (hpage ▸ hs id w hold)
    · have hsame : rec' = rec :=
        List.inj_on_of_nodup_map hnodup hrec' hrec (hpage'.symm.trans hpage)
      subst hsame
      exact absurd (hfinished rec' hrec hfreed w.1 hread) (Nat.not_lt.mpr hle)

theorem targetsInUse_step (hs : TargetsInUse s) (ha : Allocates s a)
    (hfinished : FreesFinished s a) : TargetsInUse (fetchMachine.step s a).1 := by
  intro id w hw
  rcases outstanding_cases hw with hold | ⟨rec, hrec, hpage, hread, hle⟩
  · have huse := hs id w hold
    cases a with
    | reclaim page =>
      refine List.mem_filter.mpr ⟨huse, ?_⟩
      simpa using ha.2.2 page rfl id w hold
    | _ => exact List.mem_append_right _ huse
  · have hheld : rec.fate ≠ .freed := fun hfreed =>
      absurd (hfinished rec hrec hfreed w.1 hread) (Nat.not_lt.mpr hle)
    cases a with
    | finish id status => cases hrec
    | reclaim page => cases hrec
    | _ =>
      refine List.mem_append_left _ (List.mem_map.mpr ⟨rec, ?_, hpage.symm⟩)
      exact List.mem_filter.mpr ⟨hrec, by simpa using hheld⟩

/-! ## By the schedule -/

variable {ε : Type} {accepts : WCStatus → Bool} {queues : Queues} {rec : FetchRecord}

theorem fateOf_eq_freed_iff {ε α : Type} {r : Except ε α} :
    fateOf (some r) = .freed ↔ ∃ err, r = .error err := by
  cases r with
  | ok a => exact iff_of_false (by simp [fateOf]) (by simp)
  | error err => exact iff_of_true rfl ⟨err, rfl⟩

/-- A freed page's READ has finished just when its wait does not give up on it. -/
theorem finished_of_freed_iff {poll : CoreQueue → CqEvent → CoreQueue × Poll (ℕ × WCStatus) ε}
    (h : PollsOldest accepts poll) {q : CoreQueue} (hq : q.Valid) (own : ReadRequest)
    (polls : List (CqEvent × ℤ)) :
    (fateOf (waitBy poll (q.post own true) (polls ++ [expiry])).2 = .freed →
        q.works.length <
          (waitBy poll (q.post own true) (polls ++ [expiry])).1.finished.length) ↔
      ¬ GivesUp accepts (oldest q) q.signals polls := by
  have hgives := h.gives_up_iff (SendQueue.signals_post hq.bounded own true) polls
  have hplace : (q.post own true).finished.length + q.signals.length = q.works.length := by
    rw [SendQueue.post_finished, SendQueue.length_signals]
    have := hq.bounded
    omega
  rw [hplace] at hgives
  change _ ↔ ¬ GivesUp accepts (oldest (q.post own true)) q.signals polls
  rw [← hgives]
  obtain ⟨q', r, hwait⟩ : ∃ q' r, waitBy poll (q.post own true) (polls ++ [expiry]) = (q', some r) :=
    exists_wait_result poll polls _
  rw [hwait]
  dsimp only
  rw [fateOf_eq_freed_iff]
  constructor
  · rintro hfinished ⟨q'', err, heq, hle⟩
    cases heq
    exact absurd (hfinished ⟨err, rfl⟩) (Nat.not_lt.mpr hle)
  · rintro hnot ⟨err, rfl⟩
    exact Nat.lt_of_not_le fun hle => hnot ⟨q', err, rfl, hle⟩

theorem freesFinished_of_not_freed
    (h : ∀ rec ∈ (a.fetch s.queues).2, rec.fate ≠ .freed) : FreesFinished s a :=
  fun rec hrec hfreed => absurd hfreed (h rec hrec)

theorem freesFinished_singleton (h : a.fetch s.queues = (queues, [rec])) :
    FreesFinished s a ↔ (rec.fate = .freed → ∀ r ∈ rec.read,
      r.serial < (queues rec.queue).finished.length) := by
  change (∀ rec ∈ (a.fetch s.queues).2, rec.fate = .freed → ∀ r ∈ rec.read,
    r.serial < ((a.fetch s.queues).1 rec.queue).finished.length) ↔ _
  rw [h]
  exact List.forall_mem_singleton

theorem freesFinished_of_refused {page : ℕ} {fate : PageFate}
    (h : a.fetch s.queues = (s.queues, [⟨id, page, none, fate⟩])) : FreesFinished s a :=
  (freesFinished_singleton h).mpr (by simp)

theorem freesFinished_posted_iff {poll : CoreQueue → CqEvent → CoreQueue × Poll (ℕ × WCStatus) ε}
    (hpoll : PollsOldest accepts poll) (hq : (s.queues id).Valid)
    (own : ReadRequest) (page : ℕ) {polls : List (CqEvent × ℤ)}
    (h : a.fetch s.queues =
      (Function.update s.queues id
          (waitBy poll ((s.queues id).post own true) (polls ++ [expiry])).1,
        [⟨id, page, some own,
          fateOf (waitBy poll ((s.queues id).post own true) (polls ++ [expiry])).2⟩]))
    (hown : own.serial = (s.queues id).works.length) :
    FreesFinished s a ↔ ¬ GivesUp accepts (oldest (s.queues id)) (s.queues id).signals polls := by
  rw [freesFinished_singleton h, ← finished_of_freed_iff hpoll hq own]
  simp [hown]

section Paths

variable {lookupPgTable : VirtAddr → Option PhysAddr} {remoteVa : VirtAddr} {info : AccessInfo}

theorem freesFinished_readRemotePage_iff (hvalid : ∀ id, (s.queues id).Valid) (useRc : Bool)
    (env : FetchEnv) :
    FreesFinished s (.readRemotePage useRc lookupPgTable remoteVa info env) ↔
      WaitsForOwn s (.readRemotePage useRc lookupPgTable remoteVa info env) := by
  rw [WaitsForOwn]
  cases hsrc : lookupPgTable remoteVa with
  | none =>
    refine iff_of_true (freesFinished_of_not_freed ?_) fun h => absurd rfl h
    rw [FetchAction.fetch, Fetch.readRemotePage, hsrc]
    simp
  | some src =>
    rw [forall_prop_of_true (Option.some_ne_none src)]
    have hfetch : (FetchAction.readRemotePage useRc lookupPgTable remoteVa info env).fetch
        s.queues = ((remoteRead useRc s.queues src info env).1,
          [(remoteRead useRc s.queues src info env).2]) := by
      rw [FetchAction.fetch, Fetch.readRemotePage, hsrc]
    rw [remoteRead] at hfetch
    cases hpost : env.postError with
    | some err =>
      rw [hpost] at hfetch
      exact iff_of_true (freesFinished_of_refused hfetch) (by simp)
    | none =>
      rw [hpost] at hfetch
      rw [forall_prop_of_true rfl]
      exact freesFinished_posted_iff pollsOldest_device (hvalid _) _ _ hfetch rfl

theorem freesFinished_readRemotePagePrefetch_iff (hvalid : ∀ id, (s.queues id).Valid)
    (env : FetchEnv) :
    FreesFinished s (.readRemotePagePrefetch lookupPgTable remoteVa info env) ↔
      WaitsForOwn s (.readRemotePagePrefetch lookupPgTable remoteVa info env) := by
  rw [WaitsForOwn]
  cases hsrc : lookupPgTable remoteVa with
  | none =>
    refine iff_of_true (freesFinished_of_not_freed ?_) (by simp)
    rw [FetchAction.fetch, Fetch.readRemotePagePrefetch, hsrc]
    simp
  | some src =>
    by_cases hahead : PhysAddr.isPrefetch src
    · refine iff_of_true (freesFinished_of_not_freed ?_) (by simp [hahead])
      rw [FetchAction.fetch, Fetch.readRemotePagePrefetch, hsrc]
      simp [hahead]
    have hcond : ∀ P : Prop, (∀ remotePa, some src = some remotePa →
        ¬ PhysAddr.isPrefetch remotePa → P) ↔ P :=
      fun P => ⟨fun h => h src rfl hahead, fun h _ _ _ => h⟩
    rw [hcond]
    cases hpost : env.postError with
    | some err =>
      refine iff_of_true (freesFinished_of_not_freed ?_) (by simp)
      rw [FetchAction.fetch, Fetch.readRemotePagePrefetch, hsrc]
      simp [hahead, hpost]
    | none =>
      rw [forall_prop_of_true rfl]
      refine freesFinished_posted_iff pollsOldest_conn (hvalid _)
        (nextRead (s.queues (.dc env.cpu)) (some info.accessHandler) (PhysAddr.decode src)
          info.rkey env.page) env.page ?_ rfl
      rw [FetchAction.fetch, Fetch.readRemotePagePrefetch, hsrc]
      dsimp only
      rw [if_neg hahead, hpost]
      rfl

theorem freesFinished_batch_last_iff (polls : List (CqEvent × ℤ))
    (addrs : List (VirtAddr × PostEnv)) (env : PostEnv) :
    FreesFinished s (.batchReadRemotePages lookupPgTable info polls (addrs ++ [(remoteVa, env)])) ↔
      ∀ rec ∈ (batchReadOne lookupPgTable info polls true
          (postUnsignaled lookupPgTable info s.queues addrs).1 remoteVa env).2,
        rec.fate = .freed → ∀ r ∈ rec.read,
          r.serial < ((batchReadOne lookupPgTable info polls true
            (postUnsignaled lookupPgTable info s.queues addrs).1 remoteVa env).1
              rec.queue).finished.length := by
  unfold FreesFinished
  dsimp only [fetchMachine, FetchAction.fetch]
  rw [batchReadRemotePages_append]
  dsimp only
  constructor
  · intro h rec hrec
    refine h rec (List.reduceOption_mem_iff.mpr (List.mem_append_right _ ?_))
    exact List.mem_singleton.mpr hrec.symm
  · intro h rec hrec hfreed
    rcases List.mem_append.mp (List.reduceOption_mem_iff.mp hrec) with hrec | hrec
    · obtain ⟨_, -, -, hreturned⟩ := of_mem_postUnsignaled hrec
      rw [hreturned.fate] at hfreed
      cases hfreed
    · exact h rec (List.mem_singleton.mp hrec).symm hfreed

theorem freesFinished_batch_iff (hvalid : ∀ id, (s.queues id).Valid)
    (polls : List (CqEvent × ℤ)) (addrList : List (VirtAddr × PostEnv)) :
    FreesFinished s (.batchReadRemotePages lookupPgTable info polls addrList) ↔
      WaitsForOwn s (.batchReadRemotePages lookupPgTable info polls addrList) := by
  rw [WaitsForOwn]
  obtain rfl | ⟨addrs, ⟨remoteVa, env⟩, rfl⟩ := List.eq_nil_or_concat' addrList
  · exact iff_of_true (freesFinished_of_not_freed fun rec hrec => by cases hrec) (by simp)
  have hcond : ∀ P : List (VirtAddr × PostEnv) → VirtAddr → PostEnv → Prop,
      (∀ addrs' remoteVa' env', addrs ++ [(remoteVa, env)] = addrs' ++ [(remoteVa', env')] →
        P addrs' remoteVa' env') ↔ P addrs remoteVa env := by
    intro P
    refine ⟨fun h => h _ _ _ rfl, fun h addrs' remoteVa' env' heq => ?_⟩
    obtain ⟨rfl, hlast⟩ := List.append_inj' heq rfl
    cases hlast
    exact h
  rw [hcond, freesFinished_batch_last_iff]
  have hpostsOnly := postsOnly_postUnsignaled lookupPgTable info s.queues addrs (.dc env.cpu)
  have hq : ((postUnsignaled lookupPgTable info s.queues addrs).1 (.dc env.cpu)).Valid :=
    (posts_postUnsignaled addrs).valid hvalid _
  rw [← signals_postUnsignaled info addrs hvalid, oldest, ← hpostsOnly.waiting, ← oldest]
  cases hsrc : lookupPgTable remoteVa with
  | none =>
    rw [batchReadOne_unmapped hsrc]
    exact iff_of_true (fun rec hrec => by cases hrec) fun h => absurd rfl h
  | some src =>
    rw [batchReadOne_last hsrc, lastPost, forall_prop_of_true (Option.some_ne_none src)]
    cases hpost : env.postError with
    | some err => exact iff_of_true (by simp) (by simp)
    | none =>
      rw [forall_prop_of_true rfl, ← finished_of_freed_iff pollsOldest_conn hq
        (nextRead ((postUnsignaled lookupPgTable info s.queues addrs).1 (.dc env.cpu))
          (some info.accessHandler) src info.rkey env.page)]
      simp [waitConn, waitBy, nextRead]

end Paths

theorem pending_of_mem_executeReqs {child : ℕ} {info : AccessInfo}
    {reqs : List (PhysAddr × ℕ)}
    (hrec : rec ∈ (executeReqs child info queues reqs).2) : rec.fate = .pending := by
  induction reqs generalizing queues with
  | nil => cases hrec
  | cons req rest ih =>
    rcases List.mem_cons.mp hrec with rfl | hrest
    · rfl
    · exact ih hrest

/-- An action frees only pages whose READs have finished just when its wait does not give up
on its own READ. -/
theorem freesFinished_iff (hvalid : ∀ id, (s.queues id).Valid) :
    FreesFinished s a ↔ WaitsForOwn s a := by
  cases a with
  | finish id status =>
    exact iff_of_true (freesFinished_of_not_freed fun rec hrec => by cases hrec) trivial
  | reclaim page =>
    exact iff_of_true (freesFinished_of_not_freed fun rec hrec => by cases hrec) trivial
  | readRemotePage useRc lookupPgTable remoteVa info env =>
    exact freesFinished_readRemotePage_iff hvalid useRc env
  | readRemotePageWoPrefetch useRc lookupPgTable remoteVa info env =>
    exact freesFinished_readRemotePage_iff hvalid useRc env
  | readRemotePagePrefetch lookupPgTable remoteVa info env =>
    exact freesFinished_readRemotePagePrefetch_iff hvalid env
  | batchReadRemotePages lookupPgTable info polls addrList =>
    exact freesFinished_batch_iff hvalid polls addrList
  | executeReqs child info reqs =>
    refine iff_of_true (freesFinished_of_not_freed fun rec hrec => ?_) trivial
    rw [pending_of_mem_executeReqs hrec]
    decide

end Step

/-- A fetch of the page `0x5000` on core 0, by `read_remote_page` without the
`prefetch` feature. -/
def sampleFetch (polls : List (CqEvent × ℤ)) : FetchAction :=
  .readRemotePage false (fun _ => some 0x5000) (.ofPageKey 1) ⟨0, 7, 1⟩
    ⟨⟨0, 0x8000, none⟩, polls⟩

end Mitosis.Fetch
