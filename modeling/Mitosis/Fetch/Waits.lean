import Mathlib.Data.List.ReduceOption
import Mitosis.Fetch.Paths

/-!
# What a wait can see

While a call waits, work finishes on its queue pair.  A wait that ends well has
taken the oldest completion; otherwise it has taken none, or the checked wait
one with an error status.  Every path posts the READs of its records and
nothing else.
-/

namespace Mitosis.Fetch

open Mitosis.OsNetwork
open Mitosis.PageFault (expiry exists_wait_result)
open Mitosis.RemoteMapping
open Mitosis.RemotePaging
open Mitosis.Support

/-! ## Waiting -/

/-- Take the oldest completion `wc`, leaving `rest`. -/
@[simps]
def taken (q : CoreQueue) (wc : ℕ × WCStatus) (rest : List (ℕ × WCStatus)) : CoreQueue where
  works := q.works
  finished := q.finished
  waiting := rest
  polled := q.polled ++ [wc]

/-- The queue pair after the arrivals of a poll. -/
abbrev arrived (q : CoreQueue) (e : CqEvent) : CoreQueue := q.completeAll quiet e.arrivals

theorem DCConn.poll_cases (q : CoreQueue) (e : CqEvent) :
    (∃ err, DCConn.poll q e = (arrived q e, .error err)) ∨
      DCConn.poll q e = (arrived q e, .ok .notReady) ∨
      ∃ wc rest, (arrived q e).waiting = wc :: rest ∧
        DCConn.poll q e = (taken (arrived q e) wc rest, .ok (.ready wc)) := by
  unfold DCConn.poll
  cases e.pollError with
  | some err => exact Or.inl ⟨err, rfl⟩
  | none =>
    refine Or.inr ?_
    dsimp only
    cases hw : (arrived q e).waiting with
    | nil =>
      rw [SendQueue.poll_of_nil hw]
      exact Or.inl rfl
    | cons wc rest =>
      rw [SendQueue.poll_of_cons hw]
      exact Or.inr ⟨wc, rest, rfl, rfl⟩

/-- A wait ended by taking the completion `wc`. -/
def Took (q q' : CoreQueue) (wc : ℕ × WCStatus) : Prop :=
  ∃ q₁ rest, SendQueue.Completes quiet q q₁ ∧ q₁.waiting = wc :: rest ∧
    q' = taken q₁ wc rest

variable {q q' : CoreQueue} {wc : ℕ × WCStatus}

theorem Took.works (h : Took q q' wc) :
    q'.works = q.works := by
  obtain ⟨q₁, rest, hq₁, -, rfl⟩ := h
  exact hq₁.works

theorem Took.finished (h : Took q q' wc) :
    q.finished <+: q'.finished := by
  obtain ⟨q₁, rest, hq₁, -, rfl⟩ := h
  exact hq₁.finished

theorem Took.polled (h : Took q q' wc) :
    q'.polled = q.polled ++ [wc] := by
  obtain ⟨q₁, rest, hq₁, -, rfl⟩ := h
  rw [taken_polled, hq₁.polled]

/-- The completion that was taken was waiting before, or it reports work that
has finished since. -/
theorem Took.cases (h : Took q q' wc) :
    q.waiting.head? = some wc ∨
      (q.waiting = [] ∧ q.finished.length ≤ wc.1 ∧ q'.Reports quiet wc) := by
  obtain ⟨q₁, rest, hq₁, hw, rfl⟩ := h
  obtain ⟨new, hnew, hreports⟩ := hq₁.waiting
  rw [hw] at hnew
  cases hq : q.waiting with
  | nil =>
    rw [hq, List.nil_append] at hnew
    exact Or.inr ⟨rfl, hreports wc (by simp [← hnew])⟩
  | cons c others =>
    rw [hq, List.cons_append] at hnew
    exact Or.inl (by rw [(List.cons.inj hnew).1]; rfl)

theorem waitConn_cases (q : CoreQueue) (polls : List (CqEvent × ℤ)) :
    (∃ q' wc, Took q q' wc ∧ waitConn q polls = (q', some (.ok wc))) ∨
    (∃ q' err, SendQueue.Completes quiet q q' ∧
      waitConn q polls = (q', some (.error err))) := by
  obtain ⟨q', r, hwait⟩ : ∃ q' r, waitConn q polls = (q', some r) :=
    exists_wait_result DCConn.poll polls q
  have hrule : Waited (SendQueue.Completes quiet q)
      (fun q' r => match r with
        | .ok wc => Took q q' wc
        | .error _ => SendQueue.Completes quiet q q') (waitConn q polls) := by
    refine waited_blockOn (fun q₀ e hq₀ => ?_) _ (SendQueue.Completes.refl q)
    have hpoll : Polled (SendQueue.Completes quiet q)
        (fun q' r => match r with
          | .ok wc => Took q q' wc
          | .error _ => SendQueue.Completes quiet q q') (DCConn.poll q₀ e.1) := by
      have hq₁ := hq₀.trans (SendQueue.completes_completeAll q₀ e.1.arrivals)
      obtain ⟨err, hp⟩ | hp | ⟨wc, rest, hw, hp⟩ := DCConn.poll_cases q₀ e.1
      · rw [hp]
        exact hq₁
      · rw [hp]
        exact hq₁
      · rw [hp]
        exact ⟨_, rest, hq₁, hw, rfl⟩
    exact polled_timeout hpoll (fun _ _ h => h) (fun _ _ h => h) (fun _ h => h)
  rw [hwait] at hrule ⊢
  cases r with
  | ok wc => exact Or.inl ⟨q', wc, hrule, rfl⟩
  | error err => exact Or.inr ⟨q', err, hrule, rfl⟩

theorem took_of_waitConn {polls : List (CqEvent × ℤ)}
    (h : waitConn q polls = (q', some (.ok wc))) : Took q q' wc := by
  rcases waitConn_cases q polls with ⟨q₁, wc₁, htook, hwait⟩ | ⟨q₁, err, -, hwait⟩
  · rw [hwait] at h
    cases h
    exact htook
  · rw [hwait] at h
    cases h

/-- How a wait on the device ends: it takes a completion with an error status
as well, but reports it. -/
theorem waitDevice_cases (q : CoreQueue) (polls : List (CqEvent × ℤ)) :
    (∃ q' wc, Took q q' wc ∧ wc.2 = .success ∧ waitDevice q polls = (q', some (.ok wc))) ∨
    (∃ q' err, (SendQueue.Completes quiet q q' ∨ ∃ wc, Took q q' wc ∧ wc.2 ≠ .success) ∧
      waitDevice q polls = (q', some (.error err))) := by
  obtain ⟨q', r, hwait⟩ : ∃ q' r, waitDevice q polls = (q', some r) :=
    exists_wait_result DCRemoteDevice.poll polls q
  have hrule : Waited (SendQueue.Completes quiet q)
      (fun q' r => match r with
        | .ok wc => Took q q' wc ∧ wc.2 = .success
        | .error _ => SendQueue.Completes quiet q q' ∨ ∃ wc, Took q q' wc ∧ wc.2 ≠ .success)
      (waitDevice q polls) := by
    refine waited_blockOn (fun q₀ e hq₀ => ?_) _ (SendQueue.Completes.refl q)
    have hpoll : Polled (SendQueue.Completes quiet q)
        (fun q' r => match r with
          | .ok wc => Took q q' wc ∧ wc.2 = .success
          | .error _ =>
            SendQueue.Completes quiet q q' ∨ ∃ wc, Took q q' wc ∧ wc.2 ≠ .success)
        (DCRemoteDevice.poll q₀ e.1) := by
      unfold DCRemoteDevice.poll
      have hq₁ := hq₀.trans (SendQueue.completes_completeAll q₀ e.1.arrivals)
      obtain ⟨err, hp⟩ | hp | ⟨wc, rest, hw, hp⟩ := DCConn.poll_cases q₀ e.1
      · rw [hp]
        exact Or.inl hq₁
      · rw [hp]
        exact hq₁
      · rw [hp]
        have htook : Took q (taken (arrived q₀ e.1) wc rest) wc := ⟨_, rest, hq₁, hw, rfl⟩
        dsimp only
        by_cases hs : wc.2 = .success
        · rw [if_pos hs]
          exact ⟨htook, hs⟩
        · rw [if_neg hs]
          exact Or.inr ⟨wc, htook, hs⟩
    exact polled_timeout hpoll (fun _ _ h => h) (fun _ _ h => h) (fun _ h => Or.inl h)
  rw [hwait] at hrule ⊢
  cases r with
  | ok wc => exact Or.inl ⟨q', wc, hrule.1, hrule.2, rfl⟩
  | error err => exact Or.inr ⟨q', err, hrule, rfl⟩

theorem took_of_waitDevice {polls : List (CqEvent × ℤ)}
    (h : waitDevice q polls = (q', some (.ok wc))) :
    Took q q' wc ∧ wc.2 = .success := by
  rcases waitDevice_cases q polls with ⟨q₁, wc₁, htook, hs, hwait⟩ | ⟨q₁, err, -, hwait⟩
  · rw [hwait] at h
    cases h
    exact ⟨htook, hs⟩
  · rw [hwait] at h
    cases h

/-- A queue pair after a wait: work has finished and completions were taken. -/
structure Waits (q q' : CoreQueue) : Prop where
  works : q'.works = q.works
  finished : q.finished <+: q'.finished
  valid : q.Valid → q'.Valid

theorem Waits.refl (q : CoreQueue) : Waits q q where
  works := rfl
  finished := List.prefix_rfl
  valid h := h

theorem waits_of_completes (h : SendQueue.Completes quiet q q') :
    Waits q q' where
  works := h.works
  finished := h.finished
  valid := h.valid

theorem Took.waits (h : Took q q' wc) : Waits q q' where
  works := h.works
  finished := h.finished
  valid hq := by
    obtain ⟨q₁, rest, hq₁, hw, rfl⟩ := h
    have hvalid := hq₁.valid hq
    refine ⟨hvalid.bounded, fun c hc => hvalid.waiting c ?_, fun c hc => ?_⟩
    · rw [hw]
      exact List.mem_cons_of_mem _ hc
    · rcases List.mem_append.mp hc with hold | hnew
      · exact hvalid.polled c hold
      · rw [List.mem_singleton.mp hnew]
        exact hvalid.waiting wc (by rw [hw]; exact List.mem_cons_self)

theorem waits_waitConn (q : CoreQueue) (polls : List (CqEvent × ℤ)) :
    Waits q (waitConn q polls).1 := by
  rcases waitConn_cases q polls with ⟨q', wc, htook, hwait⟩ | ⟨q', err, hq', hwait⟩
  · rw [hwait]
    exact htook.waits
  · rw [hwait]
    exact waits_of_completes hq'

theorem waits_waitDevice (q : CoreQueue) (polls : List (CqEvent × ℤ)) :
    Waits q (waitDevice q polls).1 := by
  rcases waitDevice_cases q polls with ⟨q', wc, htook, -, hwait⟩ |
    ⟨q', err, hq' | ⟨wc, htook, -⟩, hwait⟩
  · rw [hwait]
    exact htook.waits
  · rw [hwait]
    exact waits_of_completes hq'
  · rw [hwait]
    exact htook.waits

/-! ## Posting the READs of the records -/

/-- The queue pairs after a call: work has finished, and the READs that were
posted are those of the records. -/
structure Posts (queues queues' : Queues) (records : List FetchRecord) : Prop where
  works : ∀ id, (queues id).works <+: (queues' id).works
  finished : ∀ id, (queues id).finished <+: (queues' id).finished
  valid : (∀ id, (queues id).Valid) → ∀ id, (queues' id).Valid
  own : ∀ rec ∈ records, ∀ r, rec.read = some r → r.laddr = rec.page ∧
    (queues rec.queue).works.length ≤ r.serial ∧
    ∃ signaled, (queues' rec.queue).works[r.serial]? = some (r, signaled)
  new : ∀ id k w, (queues' id).works[k]? = some w → (queues id).works.length ≤ k →
    ∃ rec ∈ records, rec.queue = id ∧ rec.read = some w.1 ∧ w.1.serial = k

theorem Posts.refl (queues : Queues) : Posts queues queues [] where
  works _ := List.prefix_rfl
  finished _ := List.prefix_rfl
  valid h := h
  own := by simp
  new id k w hw hk := by
    rw [List.getElem?_eq_none hk] at hw
    cases hw

theorem Posts.trans {queues queues' queues'' : Queues} {records records' : List FetchRecord}
    (h : Posts queues queues' records) (h' : Posts queues' queues'' records') :
    Posts queues queues'' (records ++ records') where
  works id := (h.works id).trans (h'.works id)
  finished id := (h.finished id).trans (h'.finished id)
  valid hvalid := h'.valid (h.valid hvalid)
  own rec hrec r hr := by
    rcases List.mem_append.mp hrec with hrec | hrec
    · obtain ⟨hpage, hserial, signaled, hw⟩ := h.own rec hrec r hr
      exact ⟨hpage, hserial, signaled, getElem?_mono (h'.works rec.queue) hw⟩
    · obtain ⟨hpage, hserial, hw⟩ := h'.own rec hrec r hr
      exact ⟨hpage, (h.works rec.queue).length_le.trans hserial, hw⟩
  new id k w hw hk := by
    by_cases hlt : k < (queues' id).works.length
    · have hold : (queues' id).works[k]? = some w := by
        obtain ⟨more, hmore⟩ := h'.works id
        rwa [← hmore, List.getElem?_append_left hlt] at hw
      obtain ⟨rec, hrec, hrest⟩ := h.new id k w hold hk
      exact ⟨rec, List.mem_append_left _ hrec, hrest⟩
    · obtain ⟨rec, hrec, hrest⟩ := h'.new id k w hw (Nat.le_of_not_lt hlt)
      exact ⟨rec, List.mem_append_right _ hrec, hrest⟩

theorem posts_of_idle {queues : Queues} {id : QueueId} {q : CoreQueue}
    {records : List FetchRecord} (hrecords : ∀ rec ∈ records, rec.read = none)
    (hq : Waits (queues id) q) : Posts queues (Function.update queues id q) records where
  works id' := by
    by_cases hid : id' = id
    · subst hid
      simp [hq.works]
    · simp [hid]
  finished id' := by
    by_cases hid : id' = id
    · subst hid
      simpa using hq.finished
    · simp [hid]
  valid h id' := by
    by_cases hid : id' = id
    · subst hid
      simpa using hq.valid (h id')
    · simpa [hid] using h id'
  own rec hrec r hr := by
    rw [hrecords rec hrec] at hr
    cases hr
  new id' k w hw hk := by
    have hsame : (Function.update queues id q id').works = (queues id').works := by
      by_cases hid : id' = id
      · subst hid
        simpa using hq.works
      · simp [hid]
    rw [hsame, List.getElem?_eq_none hk] at hw
    cases hw

theorem posts_of_post {queues : Queues} {id : QueueId} {q : CoreQueue} {own : ReadRequest}
    {signaled : Bool} {page : ℕ} {fate : PageFate}
    (hq : Waits ((queues id).post own signaled) q)
    (hserial : own.serial = (queues id).works.length) (hpage : own.laddr = page) :
    Posts queues (Function.update queues id q) [⟨id, page, some own, fate⟩] where
  works id' := by
    by_cases hid : id' = id
    · subst hid
      simp [hq.works]
    · simp [hid]
  finished id' := by
    by_cases hid : id' = id
    · subst hid
      simpa using hq.finished
    · simp [hid]
  valid h id' := by
    by_cases hid : id' = id
    · subst hid
      simpa using hq.valid ((h id').post own signaled)
    · simpa [hid] using h id'
  own rec hrec r hr := by
    obtain rfl := List.mem_singleton.mp hrec
    obtain rfl : own = r := Option.some.inj hr
    exact ⟨hpage, hserial.ge, signaled, by simp [hq.works, hserial]⟩
  new id' k w hw hk := by
    by_cases hid : id' = id
    · subst hid
      rw [Function.update_self, hq.works, SendQueue.post_works, List.getElem?_append_right hk,
        List.getElem?_eq_some_iff] at hw
      obtain ⟨hlt, hw⟩ := hw
      have hk' : k = (queues id').works.length := by
        rw [List.length_singleton] at hlt
        omega
      refine ⟨_, List.mem_singleton_self _, rfl, ?_, ?_⟩
      · simp [← hw]
      · simp [← hw, hserial, hk']
    · rw [Function.update_of_ne hid, List.getElem?_eq_none hk] at hw
      cases hw

theorem posts_nextRead (queues : Queues) (id : QueueId) (endpoint : Option ℕ)
    (raddr : PhysAddr) (rkey page : ℕ) (signaled : Bool) (fate : PageFate) :
    Posts queues
      (Function.update queues id
        ((queues id).post (nextRead (queues id) endpoint raddr rkey page) signaled))
      [⟨id, page, some (nextRead (queues id) endpoint raddr rkey page), fate⟩] :=
  posts_of_post (Waits.refl _) rfl rfl

theorem posts_of_refused (queues : Queues) (id : QueueId) (page : ℕ) (fate : PageFate) :
    Posts queues queues [⟨id, page, none, fate⟩] := by
  have h : Posts queues (Function.update queues id (queues id)) [⟨id, page, none, fate⟩] :=
    posts_of_idle (by simp) (Waits.refl _)
  rwa [Function.update_eq_self] at h

section Paths

variable {useRc : Bool} {lookupPgTable : VirtAddr → Option PhysAddr} {queues : Queues}
  {remoteVa : VirtAddr} {info : AccessInfo}

theorem posts_remoteRead (src : PhysAddr) (env : FetchEnv) :
    Posts queues (remoteRead useRc queues src info env).1
      [(remoteRead useRc queues src info env).2] := by
  unfold remoteRead
  dsimp only
  cases env.postError with
  | some err => exact posts_of_refused queues _ _ _
  | none =>
    exact posts_of_post (waits_waitDevice _ _) rfl rfl

theorem posts_readRemotePage (env : FetchEnv) :
    Posts queues (readRemotePage useRc lookupPgTable queues remoteVa info env).1
      (readRemotePage useRc lookupPgTable queues remoteVa info env).2 := by
  unfold readRemotePage
  cases lookupPgTable remoteVa with
  | none => exact Posts.refl queues
  | some src => exact posts_remoteRead src env

theorem posts_readRemotePagePrefetch (env : FetchEnv) :
    Posts queues (readRemotePagePrefetch lookupPgTable queues remoteVa info env).1
      (readRemotePagePrefetch lookupPgTable queues remoteVa info env).2 := by
  unfold readRemotePagePrefetch
  cases lookupPgTable remoteVa with
  | none => exact Posts.refl queues
  | some src =>
    dsimp only
    split
    · exact Posts.refl queues
    · cases env.postError with
      | some err => exact posts_of_refused queues _ _ _
      | none =>
        exact posts_of_post (waits_waitConn _ _) rfl rfl

theorem posts_batchReadOne (polls : List (CqEvent × ℤ)) (last : Bool) (env : PostEnv) :
    Posts queues (batchReadOne lookupPgTable info polls last queues remoteVa env).1
      (batchReadOne lookupPgTable info polls last queues remoteVa env).2.toList := by
  unfold batchReadOne
  cases lookupPgTable remoteVa with
  | none => exact Posts.refl queues
  | some src =>
    dsimp only
    cases env.postError with
    | some err =>
      cases last with
      | true => exact posts_of_idle (by simp) (waits_waitConn _ _)
      | false => exact posts_of_idle (by simp) (Waits.refl _)
    | none =>
      cases last with
      | true => exact posts_of_post (waits_waitConn _ _) rfl rfl
      | false => exact posts_nextRead _ _ _ _ _ _ _ _

theorem reduceOption_cons {α : Type} (o : Option α) (l : List (Option α)) :
    (o :: l).reduceOption = o.toList ++ l.reduceOption := by
  cases o with
  | none => rfl
  | some a => rfl

theorem posts_batchReadRemotePages (polls : List (CqEvent × ℤ))
    (addrList : List (VirtAddr × PostEnv)) :
    Posts queues (batchReadRemotePages lookupPgTable info polls queues addrList).1
      (batchReadRemotePages lookupPgTable info polls queues addrList).2.reduceOption := by
  induction addrList generalizing queues with
  | nil => exact Posts.refl queues
  | cons entry rest ih =>
    obtain ⟨remoteVa, env⟩ := entry
    rw [batchReadRemotePages, reduceOption_cons]
    exact (posts_batchReadOne polls rest.isEmpty env).trans ih

theorem posts_executeReqs (child : ℕ) (reqs : List (PhysAddr × ℕ)) :
    Posts queues (executeReqs child info queues reqs).1
      (executeReqs child info queues reqs).2 := by
  induction reqs generalizing queues with
  | nil => exact Posts.refl queues
  | cons req rest ih =>
    obtain ⟨phyaddr, userPage⟩ := req
    exact (posts_nextRead queues (.prefetch child) (some info.accessHandler)
      (PhysAddr.realAddr phyaddr) info.rkey userPage true .pending).trans ih

end Paths

end Mitosis.Fetch
