import Mitosis.Fetch.Schedules

/-!
# Which pages of a batch are confirmed

`batch_read_remote_pages` posts every READ but the last one unsignaled and waits
once, for the request at the last position of the list.  One completion of that
request would confirm all READs before it on the same queue pair.  The pages of
the earlier positions are returned before the wait, whatever it brings, and
there is no wait at all if the last address is not mapped.
-/

namespace Mitosis.Fetch

open Mitosis.OsNetwork
open Mitosis.RemoteMapping
open Mitosis.RemotePaging
open Mitosis.Support

/-- The completions that were polled between two states of a queue pair. -/
def newlyPolled (queues queues' : Queues) (id : QueueId) : List (ℕ × WCStatus) :=
  (queues' id).polled.drop (queues id).polled.length

/-- The READ into the page was posted, and a completion was polled of a signaled
READ that was posted at or after it on the same queue pair. -/
def Confirmed (queues queues' : Queues) (rec : FetchRecord) : Prop :=
  ∃ r, rec.read = some r ∧
    ∃ wc ∈ newlyPolled queues queues' rec.queue, r.serial ≤ wc.1 ∧
      ∃ r', (queues' rec.queue).works[wc.1]? = some (r', true)

/-- Every page that a batch returns is confirmed. -/
def BatchConfirmed (queues : Queues) (result : Queues × List (Option FetchRecord)) : Prop :=
  ∀ rec, some rec ∈ result.2 → rec.fate = .returned → Confirmed queues result.1 rec

variable {rec : FetchRecord}

theorem not_confirmed_of_polled_eq {queues queues' : Queues}
    (h : (queues' rec.queue).polled = (queues rec.queue).polled) :
    ¬ Confirmed queues queues' rec := by
  rintro ⟨r, -, wc, hwc, -⟩
  simp [newlyPolled, h] at hwc

/-! ## The unsignaled part of a batch -/

/-- The iterations of a batch before the last one. -/
def postUnsignaled (lookupPgTable : VirtAddr → Option PhysAddr) (info : AccessInfo) :
    Queues → List (VirtAddr × PostEnv) → Queues × List (Option FetchRecord)
  | queues, [] => (queues, [])
  | queues, (remoteVa, env) :: rest =>
    let one := batchReadOne lookupPgTable info [] false queues remoteVa env
    let others := postUnsignaled lookupPgTable info one.1 rest
    (others.1, one.2 :: others.2)

/-- The address is mapped, and the driver takes its READ on the queue pair of the core. -/
def PostsOn (lookupPgTable : VirtAddr → Option PhysAddr) (cpu : ℕ)
    (entry : VirtAddr × PostEnv) : Prop :=
  lookupPgTable entry.1 ≠ none ∧ entry.2.postError = none ∧ entry.2.cpu = cpu

instance (lookupPgTable : VirtAddr → Option PhysAddr) (cpu : ℕ) :
    DecidablePred (PostsOn lookupPgTable cpu) := fun entry =>
  inferInstanceAs (Decidable (lookupPgTable entry.1 ≠ none ∧ _ ∧ _))

/-- The record of an iteration before the last one. -/
structure ReturnedUnsignaled (env : PostEnv) (rec : FetchRecord) : Prop where
  queue : rec.queue = .dc env.cpu
  fate : rec.fate = .returned
  read : rec.read ≠ none ↔ env.postError = none

/-- Work was posted on the queue pair and nothing else has happened. -/
structure PostsOnly (q q' : CoreQueue) : Prop where
  finished : q'.finished = q.finished
  waiting : q'.waiting = q.waiting
  polled : q'.polled = q.polled

theorem PostsOnly.trans {q q' q'' : CoreQueue} (h : PostsOnly q q') (h' : PostsOnly q' q'') :
    PostsOnly q q'' where
  finished := h'.finished.trans h.finished
  waiting := h'.waiting.trans h.waiting
  polled := h'.polled.trans h.polled

section Unsignaled

variable {lookupPgTable : VirtAddr → Option PhysAddr} {info : AccessInfo} {queues : Queues}

variable {addrs : List (VirtAddr × PostEnv)}

/-- A batch posts all but the last READ and then makes the last iteration. -/
theorem batchReadRemotePages_append (polls : List (CqEvent × ℤ))
    (addrs : List (VirtAddr × PostEnv)) (remoteVa : VirtAddr) (env : PostEnv) :
    batchReadRemotePages lookupPgTable info polls queues (addrs ++ [(remoteVa, env)]) =
      let posted := postUnsignaled lookupPgTable info queues addrs
      let one := batchReadOne lookupPgTable info polls true posted.1 remoteVa env
      (one.1, posted.2 ++ [one.2]) := by
  induction addrs generalizing queues with
  | nil => rfl
  | cons entry rest ih =>
    obtain ⟨va, e⟩ := entry
    have hnonempty : (rest ++ [(remoteVa, env)]).isEmpty = false := by simp
    rw [List.cons_append, batchReadRemotePages, hnonempty]
    dsimp only
    rw [ih]
    rfl

theorem batchReadOne_unmapped {polls : List (CqEvent × ℤ)} {last : Bool} {remoteVa : VirtAddr}
    (h : lookupPgTable remoteVa = none) (env : PostEnv) :
    batchReadOne lookupPgTable info polls last queues remoteVa env = (queues, none) := by
  rw [batchReadOne, h]

theorem batchReadOne_unsignaled (info : AccessInfo) (queues : Queues) {remoteVa : VirtAddr}
    {src : PhysAddr} (h : lookupPgTable remoteVa = some src) (env : PostEnv) :
    ∃ q rec, batchReadOne lookupPgTable info [] false queues remoteVa env =
        (Function.update queues (.dc env.cpu) q, some rec) ∧
      PostsOnly (queues (.dc env.cpu)) q ∧ ReturnedUnsignaled env rec := by
  rw [batchReadOne, h]
  cases hpost : env.postError with
  | some err => exact ⟨_, _, rfl, ⟨rfl, rfl, rfl⟩, rfl, rfl, by simp [hpost]⟩
  | none => exact ⟨_, _, rfl, ⟨rfl, rfl, rfl⟩, rfl, rfl, by simp [hpost]⟩

theorem postsOnly_postUnsignaled (lookupPgTable : VirtAddr → Option PhysAddr)
    (info : AccessInfo) (queues : Queues) (addrs : List (VirtAddr × PostEnv)) (id : QueueId) :
    PostsOnly (queues id) ((postUnsignaled lookupPgTable info queues addrs).1 id) := by
  induction addrs generalizing queues with
  | nil => exact ⟨rfl, rfl, rfl⟩
  | cons entry rest ih =>
    obtain ⟨remoteVa, env⟩ := entry
    refine PostsOnly.trans ?_ (ih _)
    cases h : lookupPgTable remoteVa with
    | none =>
      rw [batchReadOne_unmapped h]
      exact ⟨rfl, rfl, rfl⟩
    | some src =>
      obtain ⟨q, rec, hone, hq, -⟩ := batchReadOne_unsignaled info queues h env
      rw [hone]
      by_cases hid : id = .dc env.cpu
      · subst hid
        simpa using hq
      · dsimp only
        rw [Function.update_of_ne hid]
        exact ⟨rfl, rfl, rfl⟩

theorem postUnsignaled_of_unmapped (info : AccessInfo)
    (queues : Queues) (h : ∀ entry ∈ addrs, lookupPgTable entry.1 = none) :
    (postUnsignaled lookupPgTable info queues addrs).1 = queues ∧
      (postUnsignaled lookupPgTable info queues addrs).2.reduceOption = [] := by
  induction addrs with
  | nil => exact ⟨rfl, rfl⟩
  | cons entry rest ih =>
    obtain ⟨hentry, hrest⟩ := List.forall_mem_cons.mp h
    rw [postUnsignaled, batchReadOne_unmapped hentry]
    exact ih hrest

theorem signals_batchReadOne_unsignaled (info : AccessInfo) (remoteVa : VirtAddr) (env : PostEnv)
    {cpu : ℕ} (hbounded : (queues (.dc cpu)).finished.length ≤ (queues (.dc cpu)).works.length) :
    ((batchReadOne lookupPgTable info [] false queues remoteVa env).1 (.dc cpu)).signals =
      (queues (.dc cpu)).signals ++
        if PostsOn lookupPgTable cpu (remoteVa, env) then [false] else [] := by
  cases hsrc : lookupPgTable remoteVa with
  | none =>
    rw [batchReadOne_unmapped hsrc, if_neg fun h => h.1 hsrc, List.append_nil]
  | some src =>
    rw [batchReadOne, hsrc]
    by_cases hcpu : env.cpu = cpu
    swap
    · have hid : QueueId.dc cpu ≠ .dc env.cpu := fun h => hcpu (QueueId.dc.inj h).symm
      rw [if_neg fun h => hcpu h.2.2, List.append_nil]
      simp only [Bool.false_eq_true, if_false, Function.update_of_ne hid]
    subst hcpu
    cases hpost : env.postError with
    | some err =>
      have hrefused : ¬ PostsOn lookupPgTable env.cpu (remoteVa, env) := fun h => by
        rw [PostsOn, hpost] at h
        cases h.2.1
      rw [if_neg hrefused, List.append_nil]
      simp
    | none =>
      rw [if_pos ⟨by simp [hsrc], hpost, rfl⟩]
      simp only [Bool.false_eq_true, if_false, Function.update_self]
      exact SendQueue.signals_post hbounded _ _

theorem signals_postUnsignaled (info : AccessInfo) (addrs : List (VirtAddr × PostEnv)) {cpu : ℕ}
    (hvalid : ∀ id, (queues id).Valid) :
    ((postUnsignaled lookupPgTable info queues addrs).1 (.dc cpu)).signals =
      (queues (.dc cpu)).signals ++
        List.replicate (addrs.countP (PostsOn lookupPgTable cpu)) false := by
  induction addrs generalizing queues with
  | nil => simp [postUnsignaled]
  | cons entry rest ih =>
    obtain ⟨remoteVa, env⟩ := entry
    rw [postUnsignaled]
    dsimp only
    rw [ih ((posts_batchReadOne [] false env).valid hvalid),
      signals_batchReadOne_unsignaled info remoteVa env (hvalid (.dc cpu)).bounded,
      List.append_assoc, List.countP_cons]
    by_cases h : PostsOn lookupPgTable cpu (remoteVa, env)
    · simp [h, List.replicate_succ]
    · simp [h]

theorem posts_postUnsignaled (addrs : List (VirtAddr × PostEnv)) :
    Posts queues (postUnsignaled lookupPgTable info queues addrs).1
      (postUnsignaled lookupPgTable info queues addrs).2.reduceOption := by
  induction addrs generalizing queues with
  | nil => exact Posts.refl queues
  | cons entry rest ih =>
    obtain ⟨remoteVa, env⟩ := entry
    rw [postUnsignaled, reduceOption_cons]
    exact (posts_batchReadOne [] false env).trans ih

theorem of_mem_postUnsignaled
    (hrec : some rec ∈ (postUnsignaled lookupPgTable info queues addrs).2) :
    ∃ entry ∈ addrs, lookupPgTable entry.1 ≠ none ∧ ReturnedUnsignaled entry.2 rec := by
  induction addrs generalizing queues with
  | nil => simp [postUnsignaled] at hrec
  | cons entry rest ih =>
    obtain ⟨remoteVa, env⟩ := entry
    rcases List.mem_cons.mp hrec with hone | hrest
    · cases h : lookupPgTable remoteVa with
      | none =>
        rw [batchReadOne_unmapped h] at hone
        cases hone
      | some src =>
        obtain ⟨q, rec', heq, -, hreturned⟩ := batchReadOne_unsignaled info queues
          h env
        rw [heq] at hone
        obtain rfl := Option.some.inj hone
        exact ⟨_, List.mem_cons_self, by simp [h], hreturned⟩
    · obtain ⟨entry, hentry, hmapped, hreturned⟩ := ih hrest
      exact ⟨entry, List.mem_cons_of_mem _ hentry, hmapped, hreturned⟩

theorem exists_mem_postUnsignaled (info : AccessInfo) (queues : Queues)
    {entry : VirtAddr × PostEnv} (hentry : entry ∈ addrs)
    (hmapped : lookupPgTable entry.1 ≠ none) :
    ∃ rec, some rec ∈ (postUnsignaled lookupPgTable info queues addrs).2 ∧
      ReturnedUnsignaled entry.2 rec := by
  induction addrs generalizing queues with
  | nil => cases hentry
  | cons first rest ih =>
    rcases List.mem_cons.mp hentry with rfl | hrest
    · obtain ⟨src, h⟩ := Option.ne_none_iff_exists'.mp hmapped
      obtain ⟨q, rec, heq, -, hreturned⟩ := batchReadOne_unsignaled info queues h
        entry.2
      refine ⟨rec, ?_, hreturned⟩
      rw [postUnsignaled, heq]
      exact List.mem_cons_self
    · obtain ⟨rec, hrec, hreturned⟩ := ih _ hrest
      exact ⟨rec, List.mem_cons_of_mem _ hrec, hreturned⟩

end Unsignaled

/-! ## The last iteration -/

/-- The queue pair before the wait of the last iteration, and the READ that was
posted for it. -/
def lastPost (info : AccessInfo) (q : CoreQueue) (src : PhysAddr) (env : PostEnv) :
    CoreQueue × Option ReadRequest :=
  let own := nextRead q (some info.accessHandler) src info.rkey env.page
  match env.postError with
  | some _ => (q, none)
  | none => (q.post own true, some own)

theorem postsOnly_lastPost (info : AccessInfo) (q : CoreQueue) (src : PhysAddr)
    (env : PostEnv) : PostsOnly q (lastPost info q src env).1 := by
  unfold lastPost
  cases env.postError with
  | some err => exact ⟨rfl, rfl, rfl⟩
  | none => exact ⟨rfl, rfl, rfl⟩

/-- The wait of the last iteration ends with the completion of its own READ, and
all pages of the batch were read on its queue pair. -/
structure LastConfirms (lookupPgTable : VirtAddr → Option PhysAddr) (info : AccessInfo)
    (polls : List (CqEvent × ℤ)) (queues : Queues) (addrs : List (VirtAddr × PostEnv))
    (remoteVa : VirtAddr) (env : PostEnv) : Prop where
  posted : env.postError = none
  confirmed : ∃ src, lookupPgTable remoteVa = some src ∧
    ∃ q wc,
      let before := (postUnsignaled lookupPgTable info queues addrs).1 (.dc env.cpu)
      let own := nextRead before (some info.accessHandler) src info.rkey env.page
      waitConn (before.post own true) polls = (q, some (.ok wc)) ∧ wc.1 = own.serial
  earlier : ∀ entry ∈ addrs, lookupPgTable entry.1 ≠ none →
    entry.2.postError = none ∧ entry.2.cpu = env.cpu

section Last

variable {lookupPgTable : VirtAddr → Option PhysAddr} {info : AccessInfo}
  {polls : List (CqEvent × ℤ)} {queues : Queues} {addrs : List (VirtAddr × PostEnv)}
  {remoteVa : VirtAddr} {env : PostEnv}

theorem batchReadOne_last {src : PhysAddr} (h : lookupPgTable remoteVa = some src) :
    batchReadOne lookupPgTable info polls true queues remoteVa env =
      let posted := lastPost info (queues (.dc env.cpu)) src env
      let waited := waitConn posted.1 polls
      (Function.update queues (.dc env.cpu) waited.1,
        some ⟨.dc env.cpu, env.page, posted.2, fateOf waited.2⟩) := by
  rw [batchReadOne, h]
  rfl

theorem newlyPolled_last {mid : Queues} {q : CoreQueue} {wc : ℕ × WCStatus} {id : QueueId}
    (hmid : (mid id).polled = (queues id).polled) (hq : q.polled = (mid id).polled ++ [wc]) :
    newlyPolled queues (Function.update mid id q) id = [wc] := by
  rw [newlyPolled, Function.update_self, hq, hmid, List.drop_left]

theorem batchConfirmed_of_lastConfirms
    (h : LastConfirms lookupPgTable info polls queues addrs remoteVa env) :
    BatchConfirmed queues
      (batchReadRemotePages lookupPgTable info polls queues (addrs ++ [(remoteVa, env)])) := by
  obtain ⟨src, hsrc, q, wc, hwait, hwc⟩ := h.confirmed
  have htook := took_of_waitConn hwait
  rw [batchReadRemotePages_append]
  dsimp only
  rw [batchReadOne_last hsrc, lastPost, h.posted]
  dsimp only
  rw [hwait]
  set mid := (postUnsignaled lookupPgTable info queues addrs).1 with hmid
  have hpolled : newlyPolled queues (Function.update mid (.dc env.cpu) q) (.dc env.cpu) = [wc] :=
    newlyPolled_last (postsOnly_postUnsignaled _ _ _ addrs _).polled htook.polled
  have hworks : ∃ r', ((Function.update mid (.dc env.cpu) q) (.dc env.cpu)).works[wc.1]? =
      some (r', true) := by
    rw [Function.update_self, htook.works, hwc]
    refine ⟨nextRead (mid (.dc env.cpu)) (some info.accessHandler) src info.rkey env.page, ?_⟩
    simp [nextRead]
  -- it is enough that the READ of the page was posted no later than the last one
  have hconfirmed : ∀ rec : FetchRecord, rec.queue = .dc env.cpu →
      (∃ r, rec.read = some r ∧ r.serial ≤ wc.1) →
      Confirmed queues (Function.update mid (.dc env.cpu) q) rec := by
    rintro rec hqueue ⟨r, hr, hle⟩
    refine ⟨r, hr, wc, ?_, hle, ?_⟩
    · rw [hqueue, hpolled]
      exact List.mem_singleton_self wc
    · rw [hqueue]
      exact hworks
  intro rec hrec _
  rcases List.mem_append.mp hrec with hrec | hrec
  · obtain ⟨entry, hentry, hmapped, hreturned⟩ := of_mem_postUnsignaled hrec
    obtain ⟨hpost, hcpu⟩ := h.earlier entry hentry hmapped
    obtain ⟨r, hr⟩ := Option.ne_none_iff_exists'.mp (hreturned.read.mpr hpost)
    have hqueue : rec.queue = .dc env.cpu := by rw [hreturned.queue, hcpu]
    obtain ⟨-, -, signaled, hw⟩ := (posts_postUnsignaled addrs).own rec
      (List.reduceOption_mem_iff.mpr hrec) r hr
    rw [hqueue] at hw
    have hlt := (List.getElem?_eq_some_iff.mp hw).1
    apply hconfirmed rec hqueue
    exact ⟨r, hr, by rw [hwc]; exact hlt.le⟩
  · obtain rfl := Option.some.inj (List.mem_singleton.mp hrec)
    exact hconfirmed _ rfl ⟨_, rfl, hwc.ge⟩

/-- A batch that returns a confirmed page has polled a completion. -/
theorem waited_of_confirmed (h : Confirmed queues (batchReadOne lookupPgTable info polls true
      (postUnsignaled lookupPgTable info queues addrs).1 remoteVa env).1 rec) :
    rec.queue = .dc env.cpu ∧ ∃ src, lookupPgTable remoteVa = some src ∧
      ∃ q wc, waitConn (lastPost info ((postUnsignaled lookupPgTable info queues addrs).1
        (.dc env.cpu)) src env).1 polls = (q, some (.ok wc)) := by
  have hsame := fun id => (postsOnly_postUnsignaled lookupPgTable info queues addrs id).polled
  cases hsrc : lookupPgTable remoteVa with
  | none =>
    rw [batchReadOne_unmapped hsrc] at h
    exact absurd h (not_confirmed_of_polled_eq (hsame _))
  | some src =>
    rw [batchReadOne_last hsrc] at h
    dsimp only at h
    have hqueue : rec.queue = .dc env.cpu := by
      by_contra hne
      refine absurd h (not_confirmed_of_polled_eq ?_)
      rw [Function.update_of_ne hne, hsame]
    refine ⟨hqueue, src, rfl, ?_⟩
    rcases waitConn_cases (lastPost info ((postUnsignaled lookupPgTable info queues addrs).1
      (.dc env.cpu)) src env).1 polls with ⟨q, wc, -, hwait⟩ | ⟨q, err, hq, hwait⟩
    · exact ⟨q, wc, hwait⟩
    · rw [hwait] at h
      refine absurd h (not_confirmed_of_polled_eq ?_)
      rw [hqueue, Function.update_self, hq.polled,
        (postsOnly_lastPost info _ src env).polled, hsame]

theorem lastConfirms_of_batchConfirmed (h : BatchConfirmed queues
      (batchReadRemotePages lookupPgTable info polls queues (addrs ++ [(remoteVa, env)])))
    (hrec : some rec ∈
      (batchReadRemotePages lookupPgTable info polls queues (addrs ++ [(remoteVa, env)])).2)
    (hreturned : rec.fate = .returned) :
    LastConfirms lookupPgTable info polls queues addrs remoteVa env := by
  have hsome := h rec hrec hreturned
  rw [batchReadRemotePages_append] at h hsome
  obtain ⟨-, src, hsrc, q, wc, hwait⟩ := waited_of_confirmed hsome
  -- so the last page is returned as well, and confirmed by that completion
  have hlast := h ⟨.dc env.cpu, env.page, (lastPost info ((postUnsignaled lookupPgTable info
    queues addrs).1 (.dc env.cpu)) src env).2, .returned⟩ (by
      dsimp only
      rw [batchReadOne_last hsrc]
      dsimp only
      rw [hwait]
      simp [fateOf]) rfl
  have hearlier : ∀ entry ∈ addrs, lookupPgTable entry.1 ≠ none →
      entry.2.postError = none ∧ entry.2.cpu = env.cpu := by
    intro entry hentry hmapped
    obtain ⟨rec', hrec', hret'⟩ := exists_mem_postUnsignaled info queues hentry hmapped
    have hconf := h rec' (List.mem_append_left _ hrec') hret'.fate
    obtain ⟨hqueue, -⟩ := waited_of_confirmed hconf
    obtain ⟨r, hr, -⟩ := hconf
    refine ⟨hret'.read.mp (by simp [hr]), ?_⟩
    rw [hret'.queue] at hqueue
    exact QueueId.dc.inj hqueue
  obtain ⟨r, hr, wc', hwc', hle, r', hworks⟩ := hlast
  dsimp only at hr hwc' hworks
  cases hpost : env.postError with
  | some err =>
    rw [lastPost, hpost] at hr
    cases hr
  | none =>
    refine ⟨hpost, ⟨src, hsrc, q, wc, ?_, ?_⟩, hearlier⟩
    · rwa [lastPost, hpost] at hwait
    · have htook := took_of_waitConn hwait
      rw [lastPost, hpost] at hr htook
      obtain rfl := Option.some.inj hr
      rw [batchReadOne_last hsrc] at hwc' hworks
      dsimp only at hwc' hworks
      rw [hwait] at hwc' hworks
      rw [newlyPolled_last (postsOnly_postUnsignaled _ _ _ addrs _).polled htook.polled] at hwc'
      obtain rfl := List.mem_singleton.mp hwc'
      rw [Function.update_self, htook.works] at hworks
      have hlt := (List.getElem?_eq_some_iff.mp hworks).1
      rw [SendQueue.post_works, List.length_append, List.length_singleton] at hlt
      exact le_antisymm (Nat.le_of_lt_succ hlt) hle

end Last

/-! ## By the schedule -/

/-- No page is returned: no address before the last one is mapped, and the last one is not
either, or its wait finds no completion before a poll fails or the time is over. -/
def ReturnsNothing (lookupPgTable : VirtAddr → Option PhysAddr) (polls : List (CqEvent × ℤ))
    (queues : Queues) (addrs : List (VirtAddr × PostEnv)) (remoteVa : VirtAddr)
    (env : PostEnv) : Prop :=
  (∀ entry ∈ addrs, lookupPgTable entry.1 = none) ∧
    (lookupPgTable remoteVa = none ∨
      GetsNothing (oldest (queues (.dc env.cpu)))
        ((queues (.dc env.cpu)).signals ++ if env.postError = none then [true] else []) polls)

/-- The last address is mapped and its READ is posted, as are those of the other mapped
addresses on the same queue pair.  The wait finds the completion of the last READ: none was
waiting before the batch, and what is in flight in front of that READ, the older work and then
the READs of the batch, reports nothing. -/
structure LastReported (lookupPgTable : VirtAddr → Option PhysAddr)
    (polls : List (CqEvent × ℤ)) (queues : Queues) (addrs : List (VirtAddr × PostEnv))
    (remoteVa : VirtAddr) (env : PostEnv) : Prop where
  mapped : lookupPgTable remoteVa ≠ none
  posted : env.postError = none
  earlier : ∀ entry ∈ addrs, lookupPgTable entry.1 ≠ none →
    entry.2.postError = none ∧ entry.2.cpu = env.cpu
  own : GetsOwn (oldest (queues (.dc env.cpu)))
    ((queues (.dc env.cpu)).signals ++
      List.replicate (addrs.countP (PostsOn lookupPgTable env.cpu)) false) polls

section BySchedule

variable {lookupPgTable : VirtAddr → Option PhysAddr} {polls : List (CqEvent × ℤ)}
  {queues : Queues} {addrs : List (VirtAddr × PostEnv)} {remoteVa : VirtAddr} {env : PostEnv}

theorem fateOf_ne_returned_iff (q : CoreQueue) (polls : List (CqEvent × ℤ)) :
    fateOf (waitConn q polls).2 ≠ .returned ↔ GetsNothing (oldest q) q.signals polls := by
  rw [← waitConn_error_iff]
  rcases waitConn_cases q polls with ⟨q', wc, -, hwait⟩ | ⟨q', err, -, hwait⟩
  · rw [hwait]
    refine iff_of_false (fun h => h rfl) ?_
    rintro ⟨q'', err, heq⟩
    cases heq
  · rw [hwait]
    exact iff_of_true (by simp [fateOf]) ⟨q', err, rfl⟩

theorem oldest_lastPost (info : AccessInfo) (q : CoreQueue) (src : PhysAddr) (env : PostEnv) :
    oldest (lastPost info q src env).1 = oldest q := by
  rw [oldest, (postsOnly_lastPost info q src env).waiting, oldest]

theorem signals_lastPost (info : AccessInfo) {q : CoreQueue} (hq : q.Valid) (src : PhysAddr)
    (env : PostEnv) :
    (lastPost info q src env).1.signals =
      q.signals ++ if env.postError = none then [true] else [] := by
  rw [lastPost]
  cases env.postError with
  | some err => simp
  | none =>
    rw [if_pos rfl]
    exact SendQueue.signals_post hq.bounded _ _

theorem returnsNothing_iff (info : AccessInfo) (hvalid : ∀ id, (queues id).Valid) :
    (∀ rec, some rec ∈
        (batchReadRemotePages lookupPgTable info polls queues (addrs ++ [(remoteVa, env)])).2 →
      rec.fate ≠ .returned) ↔
      ReturnsNothing lookupPgTable polls queues addrs remoteVa env := by
  rw [batchReadRemotePages_append]
  dsimp only
  by_cases hunmapped : ∀ entry ∈ addrs, lookupPgTable entry.1 = none
  swap
  · -- an earlier page is returned without a wait
    refine iff_of_false (fun h => hunmapped fun entry hentry => ?_) fun h => hunmapped h.1
    by_contra hmapped
    obtain ⟨rec, hrec, hreturned⟩ := exists_mem_postUnsignaled info queues hentry hmapped
    exact h rec (List.mem_append_left _ hrec) hreturned.fate
  rw [ReturnsNothing, and_iff_right hunmapped]
  obtain ⟨hqueues, hrecords⟩ := postUnsignaled_of_unmapped info queues hunmapped
  have hnone : ∀ rec, some rec ∉ (postUnsignaled lookupPgTable info queues addrs).2 := by
    intro rec hrec
    rw [← List.reduceOption_mem_iff, hrecords] at hrec
    cases hrec
  rw [hqueues]
  cases hsrc : lookupPgTable remoteVa with
  | none =>
    rw [batchReadOne_unmapped hsrc]
    refine iff_of_true (fun rec hrec => ?_) (Or.inl rfl)
    rcases List.mem_append.mp hrec with hrec | hrec
    · exact absurd hrec (hnone rec)
    · cases List.mem_singleton.mp hrec
  | some src =>
    rw [batchReadOne_last hsrc, or_iff_right (by simp), ← signals_lastPost info (hvalid _) src,
      ← oldest_lastPost info _ src env, ← fateOf_ne_returned_iff]
    constructor
    · intro h
      exact h _ (List.mem_append_right _ (List.mem_singleton_self _))
    · intro h rec hrec
      rcases List.mem_append.mp hrec with hrec | hrec
      · exact absurd hrec (hnone rec)
      · obtain rfl := Option.some.inj (List.mem_singleton.mp hrec)
        exact h

theorem lastConfirms_iff (info : AccessInfo) (hvalid : ∀ id, (queues id).Valid) :
    LastConfirms lookupPgTable info polls queues addrs remoteVa env ↔
      LastReported lookupPgTable polls queues addrs remoteVa env := by
  set mid := (postUnsignaled lookupPgTable info queues addrs).1 (.dc env.cpu) with hmid
  have hq : mid.Valid := (posts_postUnsignaled addrs).valid hvalid _
  have hsignals : mid.signals = _ := signals_postUnsignaled info addrs hvalid
  have hwaiting : ∀ wc ∈ mid.waiting, wc.1 < mid.finished.length := fun wc hwc =>
    (List.getElem?_eq_some_iff.mp (hq.waiting wc hwc)).1
  have holdest : oldest mid = oldest (queues (.dc env.cpu)) := by
    rw [oldest, (postsOnly_postUnsignaled lookupPgTable info queues addrs _).waiting, oldest]
  -- the READ of the last address has the place behind the work in flight
  have hplace : mid.finished.length + mid.signals.length = mid.works.length := by
    rw [SendQueue.length_signals]
    have := hq.bounded
    omega
  have hown : ∀ src,
      (∃ q wc, waitConn (mid.post (nextRead mid (some info.accessHandler) src info.rkey env.page)
          true) polls = (q, some (.ok wc)) ∧ wc.1 = mid.works.length) ↔
        GetsOwn (oldest (queues (.dc env.cpu))) ((queues (.dc env.cpu)).signals ++
          List.replicate (addrs.countP (PostsOn lookupPgTable env.cpu)) false) polls := by
    intro src
    rw [← holdest, ← hsignals, ← hplace]
    exact waitConn_own_iff (SendQueue.signals_post hq.bounded _ _) hwaiting polls
  constructor
  · rintro ⟨hposted, ⟨src, hsrc, hwait⟩, hearlier⟩
    exact ⟨by simp [hsrc], hposted, hearlier, (hown src).mp hwait⟩
  · rintro ⟨hmapped, hposted, hearlier, hgets⟩
    obtain ⟨src, hsrc⟩ := Option.ne_none_iff_exists'.mp hmapped
    exact ⟨hposted, ⟨src, hsrc, (hown src).mpr hgets⟩, hearlier⟩

end BySchedule

/-- For every page table, state of the queue pairs, address list and schedule, a batch
confirms the pages it returns if and only if the list is empty, or it returns no page, or the
last address is mapped, the READs of the mapped addresses are taken by the driver on one queue
pair, and the wait finds the completion of the last of them.  The two conditions are on the
mapped addresses, the refused posts, the queue pair before the batch and the schedule. -/
theorem batch_confirmed_iff (lookupPgTable : VirtAddr → Option PhysAddr) (info : AccessInfo)
    (polls : List (CqEvent × ℤ)) {queues : Queues} (hvalid : ∀ id, (queues id).Valid)
    (addrList : List (VirtAddr × PostEnv)) :
    BatchConfirmed queues (batchReadRemotePages lookupPgTable info polls queues addrList) ↔
      addrList = [] ∨ ∃ addrs remoteVa env, addrList = addrs ++ [(remoteVa, env)] ∧
        (ReturnsNothing lookupPgTable polls queues addrs remoteVa env ∨
          LastReported lookupPgTable polls queues addrs remoteVa env) := by
  obtain rfl | ⟨addrs, ⟨remoteVa, env⟩, rfl⟩ := List.eq_nil_or_concat' addrList
  · refine iff_of_true (fun rec hrec => ?_) (Or.inl rfl)
    cases hrec
  constructor
  · intro h
    refine Or.inr ⟨addrs, remoteVa, env, rfl, ?_⟩
    by_cases hnone : ∀ rec, some rec ∈ (batchReadRemotePages lookupPgTable info polls queues
        (addrs ++ [(remoteVa, env)])).2 → rec.fate ≠ .returned
    · exact Or.inl ((returnsNothing_iff info hvalid).mp hnone)
    · push Not at hnone
      obtain ⟨rec, hrec, hreturned⟩ := hnone
      exact Or.inr ((lastConfirms_iff info hvalid).mp
        (lastConfirms_of_batchConfirmed h hrec hreturned))
  · rintro (hnil | ⟨addrs', remoteVa', env', heq, hlast⟩)
    · simp at hnil
    · rw [heq]
      rcases hlast with hnone | hlast
      · intro rec hrec hreturned
        exact absurd hreturned ((returnsNothing_iff info hvalid).mpr hnone rec hrec)
      · exact batchConfirmed_of_lastConfirms ((lastConfirms_iff info hvalid).mpr hlast)

/-- Two mapped pages behind an unsignaled READ of an older batch: the three READs end in their
order, and only the last one reports. -/
theorem batch_confirmed_iff_two_pages :
    let info : AccessInfo := ⟨0, 7, 1⟩
    let older : CoreQueue := SendQueue.empty.post ⟨0, some 0, 0x5000, 7, 0x7000, 4096⟩ false
    BatchConfirmed (fun _ => older)
      (batchReadRemotePages (fun va => some (va.addr + 0x5000)) info
        [(⟨[.success], none⟩, 5), (⟨[.success, .success], none⟩, 10)] (fun _ => older)
        [(⟨0x1000, by decide⟩, ⟨0, 0x8000, none⟩), (⟨0x2000, by decide⟩, ⟨0, 0x9000, none⟩)]) := by
  intro info older
  have hvalid : ∀ id : QueueId, ((fun _ => older) id).Valid :=
    fun _ => SendQueue.valid_empty.post _ _
  refine (batch_confirmed_iff _ info _ hvalid _).mpr (Or.inr ⟨[_], _, _, rfl, Or.inr ?_⟩)
  refine ⟨by simp, rfl, ?_, by decide +kernel⟩
  intro entry hentry _
  rw [List.mem_singleton.mp hentry]
  exact ⟨rfl, rfl⟩

/-- The last address of the batch is not mapped, or the driver refuses the READ
of an earlier one: either way the first page is returned unconfirmed. -/
theorem batch_returns_unconfirmed_page :
    let info : AccessInfo := ⟨0, 7, 1⟩
    let lookupPgTable : VirtAddr → Option PhysAddr :=
      fun va => if va.addr = 0x3000 then none else some (va.addr + 0x5000)
    let polls : List (CqEvent × ℤ) := [(⟨[.success], none⟩, 10)]
    ¬ BatchConfirmed (fun _ => .empty)
        (batchReadRemotePages lookupPgTable info polls (fun _ => .empty)
          [(⟨0x1000, by decide⟩, ⟨0, 0x8000, none⟩), (⟨0x3000, by decide⟩, ⟨0, 0x9000, none⟩)]) ∧
      ¬ BatchConfirmed (fun _ => .empty)
        (batchReadRemotePages lookupPgTable info polls (fun _ => .empty)
          [(⟨0x1000, by decide⟩, ⟨0, 0x8000, some (.driver 12)⟩),
            (⟨0x2000, by decide⟩, ⟨0, 0x9000, none⟩)]) := by
  intro info lookupPgTable polls
  constructor
  · intro h
    have hconfirmed := h ⟨.dc 0, 0x8000, some ⟨0, some 0, 0x6000, 7, 0x8000, 4096⟩, .returned⟩
      (by decide +kernel) rfl
    exact not_confirmed_of_polled_eq (by decide +kernel) hconfirmed
  · intro h
    obtain ⟨r, hr, -⟩ := h ⟨.dc 0, 0x8000, none, .returned⟩ (by decide +kernel) rfl
    cases hr

end Mitosis.Fetch
