import Mitosis.Descriptors.RoundTrip
import Mitosis.PageFault.PrefetchRun
import Mitosis.Resume.Syscall

/-!
# The queue pairs of the async pool

With the `prefetch` feature a resumed child holds a queue pair of the async pool.
The pair leaves the pool in the middle of the decoder and returns only from the
destructor of a handler that kept the descriptor, if the connection could be
drained.  So the pairs in the pool and the handlers with a descriptor balance
exactly as long as every resume that takes a pair succeeds and every drain does.
-/

namespace Mitosis.Resume

open Support Descriptors OsNetwork Prefetcher RemoteMapping PageFault
open RemotePaging (AccessInfo)

/-! ## One resume -/

/-- The resume gets as far as the pool. -/
structure Takes (L : Layout) (env : ResumeEnv) : Prop where
  ready : ∃ d, env.reply = some d ∧ d.ready = true
  decoded : ∃ bytes m r, env.fetched = .ok (bytes, m) ∧
    ChildDescriptor.deserialize L Heap.empty bytes m = .ok r

/-- Nothing fails behind the pool. -/
structure Finishes (env : ResumeEnv) : Prop where
  prefetchInfo : env.prefetchInfo.isSome = true
  accessInfo : env.accessInfo.isSome = true
  applyInfo : env.applyInfo.isSome = true
  mapped : env.mapped = true

section Call

variable {f : Features} {L : Layout} {pool : DCPool} {env : ResumeEnv}
  (cache : RemotePageTableCache) (machineId handlerId : ℕ)

theorem syscallResumeWRpc_of_not_takes (hf : f.prefetch = true)
    (h : ¬ (Takes L env ∧ pool.pool ≠ [])) :
    (syscallResumeWRpc f L cache pool none machineId handlerId env).1 = pool ∧
      (syscallResumeWRpc f L cache pool none machineId handlerId env).2.1 = none := by
  unfold syscallResumeWRpc
  rw [if_neg (by simp)]
  cases hreply : env.reply with
  | none => exact ⟨rfl, rfl⟩
  | some d =>
    dsimp only
    by_cases hready : d.ready = true
    · rw [if_pos hready]
      cases hfetched : env.fetched with
      | error stop => cases stop <;> exact ⟨rfl, rfl⟩
      | ok r =>
        obtain ⟨bytes, m⟩ := r
        dsimp only
        unfold deserialize
        cases hdes : ChildDescriptor.deserialize L Heap.empty bytes m with
        | error stop => cases stop <;> exact ⟨rfl, rfl⟩
        | ok r =>
          have hempty : pool.pool = [] := by
            by_contra hne
            exact h ⟨⟨⟨d, hreply, hready⟩, bytes, m, r, hfetched, hdes⟩, hne⟩
          dsimp only
          rw [if_pos hf, DCPool.popOneQp, hempty]
          exact ⟨rfl, rfl⟩
    · rw [if_neg hready]
      exact ⟨rfl, rfl⟩

/-- A resume that takes a queue pair keeps a descriptor with it if nothing fails
afterwards; otherwise the pair is lost. -/
theorem syscallResumeWRpc_of_takes (hf : f.prefetch = true) (h : Takes L env) {qp : ℕ}
    {rest : List ℕ} (hpool : pool.pool = qp :: rest) :
    (syscallResumeWRpc f L cache pool none machineId handlerId env).1 = ⟨rest⟩ ∧
      ((Finishes env ∧ ∃ r,
          (syscallResumeWRpc f L cache pool none machineId handlerId env).2.1 = some r ∧
            r.prefetchConn = some qp) ∨
        (¬ Finishes env ∧
          (syscallResumeWRpc f L cache pool none machineId handlerId env).2.1 = none)) := by
  obtain ⟨⟨d, hreply, hready⟩, bytes, m, ⟨heap, des⟩, hfetched, hdes⟩ := h
  simp only [syscallResumeWRpc, Option.isSome_none, Bool.false_eq_true, if_false, hreply, hready,
    if_true, hfetched, deserialize, hdes, hf, DCPool.popOneQp, hpool]
  cases hprefetch : env.prefetchInfo with
  | none =>
    refine ⟨rfl, Or.inr ⟨fun hfin => ?_, rfl⟩⟩
    have := hfin.prefetchInfo
    simp [hprefetch] at this
  | some info =>
    cases haccess : env.accessInfo with
    | none =>
      refine ⟨rfl, Or.inr ⟨fun hfin => ?_, rfl⟩⟩
      have := hfin.accessInfo
      simp [haccess] at this
    | some info' =>
      dsimp only
      by_cases happly : (env.applyInfo.isSome && env.mapped) = true
      · rw [if_pos happly]
        rw [Bool.and_eq_true] at happly
        exact ⟨rfl, Or.inl ⟨⟨by simp [hprefetch], by simp [haccess], happly.1, happly.2⟩,
          _, rfl, rfl⟩⟩
      · rw [if_neg happly]
        refine ⟨rfl, Or.inr ⟨fun hfin => happly ?_, rfl⟩⟩
        rw [hfin.applyInfo, hfin.mapped]
        rfl

end Call

/-! ## The handlers -/

namespace Handlers

/-- The queue pairs of the resumed children. -/
def conns (m : Handlers) : List ℕ :=
  m.entries.filterMap fun e => e.2.bind ResumeData.prefetchConn

/-- The number of handlers that hold a resumed descriptor. -/
def holding (m : Handlers) : ℕ := m.entries.countP fun e => e.2.isSome

variable {m : Handlers} {k : ℕ} {data data' : Option ResumeData}

theorem conns_perm (h : m.lookup k = some data) :
    m.conns.Perm ((data.bind ResumeData.prefetchConn).toList ++ conns (m.erase k)) := by
  refine ((entries_perm_of_lookup h).filterMap _).trans ?_
  rw [List.filterMap_cons]
  cases data.bind ResumeData.prefetchConn <;> exact List.Perm.refl _

theorem holding_eq (h : m.lookup k = some data) :
    holding m = (if data.isSome then 1 else 0) + holding (m.erase k) := by
  rw [holding, (entries_perm_of_lookup h).countP_eq, List.countP_cons, Nat.add_comm]
  rfl

theorem conns_insert : conns (m.insert k data') =
    (data'.bind ResumeData.prefetchConn).toList ++ conns (m.erase k) := by
  rw [conns, AList.entries_insert, List.filterMap_cons]
  cases data'.bind ResumeData.prefetchConn <;> rfl

theorem holding_insert :
    holding (m.insert k data') = (if data'.isSome then 1 else 0) + holding (m.erase k) := by
  rw [holding, AList.entries_insert, List.countP_cons, Nat.add_comm]
  rfl

end Handlers

/-! ## One call -/

/-- There are `N` queue pairs in the pool and handlers with a resumed descriptor,
and no pair is in two places. -/
structure Balanced (N : ℕ) (pool : DCPool) (handlers : Handlers) : Prop where
  count : pool.pool.length + Handlers.holding handlers = N
  distinct : (pool.pool ++ Handlers.conns handlers).Nodup

section Balance

variable {N k : ℕ} {pool : DCPool} {handlers : Handlers} {data data' : Option ResumeData}

theorem Balanced.replace (hb : Balanced N pool handlers) (h : handlers.lookup k = some data)
    (hsome : data'.isSome = data.isSome)
    (hconn : data'.bind ResumeData.prefetchConn = data.bind ResumeData.prefetchConn) :
    Balanced N pool (handlers.insert k data') where
  count := by
    rw [Handlers.holding_insert, hsome, ← Handlers.holding_eq h]
    exact hb.count
  distinct := by
    rw [Handlers.conns_insert, hconn]
    exact ((Handlers.conns_perm h).append_left _).nodup_iff.mp hb.distinct

theorem Balanced.take {qp : ℕ} {rest : List ℕ} {r : ResumeData}
    (hb : Balanced N ⟨qp :: rest⟩ handlers) (h : handlers.lookup k = some none)
    (hconn : r.prefetchConn = some qp) : Balanced N ⟨rest⟩ (handlers.insert k (some r)) where
  count := by
    have hcount := hb.count
    rw [Handlers.holding_eq h] at hcount
    rw [Handlers.holding_insert]
    simp only [List.length_cons, Option.isSome_none, Option.isSome_some, Bool.false_eq_true,
      if_false, if_true] at hcount ⊢
    omega
  distinct := by
    rw [Handlers.conns_insert]
    simp only [Option.bind_some, hconn, Option.toList_some]
    refine (List.perm_middle.nodup_iff).mpr ?_
    exact ((Handlers.conns_perm h).append_left (qp :: rest)).nodup_iff.mp hb.distinct

theorem Balanced.giveBack {qp : ℕ} {r : ResumeData} (hb : Balanced N pool handlers)
    (h : handlers.lookup k = some (some r)) (hconn : r.prefetchConn = some qp) :
    Balanced N (pool.pushOneQp qp) (handlers.erase k) where
  count := by
    have hcount := hb.count
    rw [Handlers.holding_eq h] at hcount
    simp only [Option.isSome_some, if_true, DCPool.pushOneQp, List.length_cons] at hcount ⊢
    omega
  distinct := by
    have hperm := (Handlers.conns_perm h).append_left pool.pool
    simp only [Option.bind_some, hconn, Option.toList_some] at hperm
    exact (List.perm_middle.nodup_iff).mp (hperm.nodup_iff.mp hb.distinct)

theorem Balanced.forget (hb : Balanced N pool handlers) (h : handlers.lookup k = some none) :
    Balanced N pool (handlers.erase k) where
  count := by
    have hcount := hb.count
    rwa [Handlers.holding_eq h, Option.isSome_none, if_neg (by simp), Nat.zero_add] at hcount
  distinct := ((Handlers.conns_perm h).append_left _).nodup_iff.mp hb.distinct

end Balance

/-- No queue pair is lost in the call. -/
def NoneLost (L : Layout) (s : ResumeNode) : NodeAction → Prop
  | .open => True
  | .child _ _ => True
  | .resume handler _ _ env =>
    s.handlers.lookup handler = some none → Takes L env → s.asyncPool.pool ≠ [] →
      Finishes env
  | .close handler polls => ∀ r, s.handlers.lookup handler = some (some r) →
      ∀ x err, r.child.exec.drainConnections polls ≠ .ok (x, .error err)

/-- What a run keeps: the balance, and that every resumed descriptor has a queue
pair. -/
structure Pairs (N : ℕ) (s : ResumeNode) : Prop where
  balanced : Balanced N s.asyncPool s.handlers
  conn : ∀ h r, s.handlers.lookup h = some (some r) → ∃ qp, r.prefetchConn = some qp
  numbered : ∀ h ∈ s.handlers, h < s.nextHandler

section Steps

variable {f : Features} {L : Layout} {alloc : PageAllocator} {N : ℕ} {s : ResumeNode}

theorem numbered_insert {m : Handlers} {k n : ℕ} {data data' : Option ResumeData}
    (hm : ∀ h ∈ m, h < n) (hk : m.lookup k = some data) :
    ∀ h ∈ m.insert k data', h < n := by
  intro h hh
  rcases (AList.mem_insert _).mp hh with rfl | hh
  · exact hm h (mem_of_lookup hk)
  · exact hm h hh

theorem Pairs.open (inv : Pairs N s) : Pairs N ((nodeMachine f L alloc).step s .open).1 := by
  have hnew : s.nextHandler ∉ s.handlers := fun h => (inv.numbered _ h).ne rfl
  constructor
  case balanced =>
    constructor
    case count =>
      dsimp only [nodeMachine]
      rw [Handlers.holding_insert, erase_of_notMem hnew]
      simpa using inv.balanced.count
    case distinct =>
      dsimp only [nodeMachine]
      rw [Handlers.conns_insert, erase_of_notMem hnew]
      exact inv.balanced.distinct
  case conn =>
    intro h r hr
    rcases lookup_insert_cases hr with ⟨-, hnone⟩ | hold
    · cases hnone
    · exact inv.conn h r hold
  case numbered =>
    intro h hh
    rcases (AList.mem_insert _).mp hh with rfl | hh
    · exact Nat.lt_succ_self _
    · exact Nat.lt_succ_of_lt (inv.numbered h hh)

theorem Pairs.child (inv : Pairs N s) (handler : ℕ) (action : ChildAction) :
    Pairs N ((nodeMachine f L alloc).step s (.child handler action)).1 := by
  dsimp only [nodeMachine]
  split
  · next r hr =>
      obtain ⟨qp, hqp⟩ := inv.conn handler r hr
      exact ⟨inv.balanced.replace hr rfl rfl, fun h r' hr' => by
        rcases lookup_insert_cases hr' with ⟨-, heq⟩ | hold
        · cases heq
          exact ⟨qp, hqp⟩
        · exact inv.conn h r' hold, numbered_insert inv.numbered hr⟩
  · exact inv

theorem Pairs.insert (inv : Pairs N s) {handler : ℕ} {data : Option ResumeData}
    (h : s.handlers.lookup handler = some data) :
    Pairs N { s with handlers := s.handlers.insert handler data } where
  balanced := inv.balanced.replace h rfl rfl
  conn h' r hr := by
    rcases lookup_insert_cases hr with ⟨-, heq⟩ | hold
    · exact inv.conn handler r (by rw [h, heq])
    · exact inv.conn h' r hold
  numbered := numbered_insert inv.numbered h

theorem Pairs.resume (hf : f.prefetch = true) (inv : Pairs N s)
    (handler machineId handlerId : ℕ) (env : ResumeEnv) :
    let s' := ((nodeMachine f L alloc).step s (.resume handler machineId handlerId env)).1
    (NoneLost L s (.resume handler machineId handlerId env) ∧ Pairs N s') ∨
      (¬ NoneLost L s (.resume handler machineId handlerId env) ∧
        ¬ Balanced N s'.asyncPool s'.handlers) := by
  intro s'
  cases hdata : s.handlers.lookup handler with
  | none =>
    have hs' : s' = s := by simp only [s', nodeMachine, hdata]
    exact Or.inl ⟨fun h => by simp [hdata] at h, hs' ▸ inv⟩
  | some data =>
    have hs' : s' = _ := step_resume hdata
    cases data with
    | some r =>
      refine Or.inl ⟨fun h => by simp [hdata] at h, ?_⟩
      rw [hs']
      exact inv.insert hdata
    | none =>
      by_cases htakes : Takes L env ∧ s.asyncPool.pool ≠ []
      · obtain ⟨htakes, hne⟩ := htakes
        obtain ⟨qp, rest, hpool⟩ := List.exists_cons_of_ne_nil hne
        have hb : Balanced N ⟨qp :: rest⟩ s.handlers := hpool ▸ inv.balanced
        obtain ⟨hrest, ⟨hfin, r, hr, hqp⟩ | ⟨hfin, hnone⟩⟩ :=
          syscallResumeWRpc_of_takes s.ptCache machineId handlerId hf htakes hpool
        · refine Or.inl ⟨fun _ _ _ => hfin, ?_⟩
          rw [hs', hrest, hr]
          refine ⟨hb.take hdata hqp, fun h r' hr' => ?_, numbered_insert inv.numbered hdata⟩
          rcases lookup_insert_cases hr' with ⟨-, heq⟩ | hold
          · cases heq
            exact ⟨qp, hqp⟩
          · exact inv.conn h r' hold
        · refine Or.inr ⟨fun h => hfin (h hdata htakes hne), fun hb' => ?_⟩
          -- the pair has left the pool and no handler has it
          rw [hs', hrest, hnone] at hb'
          have hcount := (hb.replace hdata rfl rfl).count
          have hcount' := hb'.count
          simp only [List.length_cons] at hcount hcount'
          omega
      · obtain ⟨hpool, hnone⟩ :=
          syscallResumeWRpc_of_not_takes s.ptCache machineId handlerId hf htakes
        refine Or.inl ⟨fun _ ht hne => absurd ⟨ht, hne⟩ htakes, ?_⟩
        rw [hs', hpool, hnone]
        exact inv.insert hdata

theorem Pairs.erase (inv : Pairs N s) {pool : DCPool} {cache : RemotePageTableCache}
    {handler : ℕ} (hb : Balanced N pool (s.handlers.erase handler)) :
    Pairs N { s with
      asyncPool := pool, ptCache := cache, handlers := s.handlers.erase handler } where
  balanced := hb
  conn h r hr := inv.conn h r (lookup_of_erase hr)
  numbered h hh := inv.numbered h (AList.mem_erase.mp hh).2

theorem Pairs.close (hf : f.prefetch = true) (inv : Pairs N s) (handler : ℕ)
    (polls : List CqEvent) :
    let s' := ((nodeMachine f L alloc).step s (.close handler polls)).1
    (NoneLost L s (.close handler polls) ∧ Pairs N s') ∨
      (¬ NoneLost L s (.close handler polls) ∧ ¬ Balanced N s'.asyncPool s'.handlers) := by
  dsimp only [nodeMachine]
  cases hdata : s.handlers.lookup handler with
  | none => exact Or.inl ⟨fun r hr => by simp [hdata] at hr, inv⟩
  | some data =>
    cases data with
    | none =>
      exact Or.inl ⟨fun r hr => by simp [hdata] at hr, inv.erase (inv.balanced.forget hdata)⟩
    | some r =>
      obtain ⟨qp, hqp⟩ := inv.conn handler r hdata
      simp only [drop, hf, if_true]
      cases hdrain : r.child.exec.drainConnections polls with
      | error halt =>
        refine Or.inl ⟨fun r' hr' x err herr => ?_, inv⟩
        rw [hdata] at hr'
        cases hr'
        rw [hdrain] at herr
        cases herr
      | ok res =>
        obtain ⟨x, res⟩ := res
        cases res with
        | ok u =>
          refine Or.inl ⟨fun r' hr' x' err herr => ?_, ?_⟩
          · rw [hdata] at hr'
            cases hr'
            rw [hdrain] at herr
            cases herr
          · apply inv.erase
            rw [hqp]
            exact inv.balanced.giveBack hdata hqp
        | error err =>
          refine Or.inr ⟨fun h => h r hdata x err hdrain, fun hb' => ?_⟩
          have hcount := inv.balanced.count
          have hcount' := hb'.count
          rw [Handlers.holding_eq hdata] at hcount
          simp only [Option.isSome_some, if_true] at hcount
          dsimp only at hcount'
          omega

end Steps

/-! ## Every run -/

/-- The async pool of a machine that was just set up. -/
def DCPool.new (maxCoreCnt : ℕ) : DCPool := ⟨(List.range maxCoreCnt).reverse⟩

/-- In every run of a machine with the `prefetch` feature, the queue pairs in the
pool and the handlers with a resumed descriptor stay constant, and no pair is in two
places, exactly if no call loses a pair: every resume that takes one finishes, and
no drain fails. -/
theorem queue_pairs_constant_iff {f : Features} (hf : f.prefetch = true) (L : Layout)
    (alloc : PageAllocator) (maxCoreCnt : ℕ) (as : List NodeAction) :
    (nodeMachine f L alloc).Always (fun s a =>
        Balanced maxCoreCnt ((nodeMachine f L alloc).step s a).1.asyncPool
          ((nodeMachine f L alloc).step s a).1.handlers)
        (ResumeNode.boot (DCPool.new maxCoreCnt)) as ↔
      (nodeMachine f L alloc).Always (NoneLost L)
        (ResumeNode.boot (DCPool.new maxCoreCnt)) as := by
  have hboot : Pairs maxCoreCnt (ResumeNode.boot (DCPool.new maxCoreCnt)) := by
    constructor
    case balanced =>
      constructor
      case count => simp [ResumeNode.boot, DCPool.new, Handlers.holding]
      case distinct => simp [ResumeNode.boot, DCPool.new, Handlers.conns, List.nodup_range]
    case conn => simp [ResumeNode.boot]
    case numbered => simp [ResumeNode.boot]
  have hstep : ∀ s a, Pairs maxCoreCnt s →
      (NoneLost L s a ∧ Pairs maxCoreCnt ((nodeMachine f L alloc).step s a).1) ∨
        (¬ NoneLost L s a ∧ ¬ Balanced maxCoreCnt
          ((nodeMachine f L alloc).step s a).1.asyncPool
          ((nodeMachine f L alloc).step s a).1.handlers) := by
    intro s a inv
    cases a with
    | «open» => exact Or.inl ⟨trivial, inv.open⟩
    | child handler action => exact Or.inl ⟨trivial, inv.child handler action⟩
    | resume handler machineId handlerId env => exact inv.resume hf handler machineId handlerId env
    | close handler polls => exact inv.close hf handler polls
  refine Machine.always_iff_of_invariant (Pairs maxCoreCnt) (fun s a inv _ => ?_)
    (fun s a inv _ hnone => ?_) hboot (Machine.always_of_forall (fun _ _ => trivial) _ as)
  · rcases hstep s a inv with ⟨hnone, hinv⟩ | ⟨hlost, hb⟩
    · exact iff_of_true hinv.balanced hnone
    · exact iff_of_false hb hlost
  · rcases hstep s a inv with ⟨-, hinv⟩ | ⟨hlost, -⟩
    · exact hinv
    · exact absurd hnone hlost

/-- The descriptor of a process without memory areas, in a buffer. -/
def emptyDescriptor : BytesMut × Memory :=
  (⟨0x1000, 248, by decide⟩, writeBytes (fun _ => 0) 0x1000
    (ParentDescriptor.image Layout.packed ⟨default, [], [], default⟩))

/-- A resume that finds the descriptor. -/
def foundEnv (prefetchInfo : Option AccessInfo) : ResumeEnv where
  reply := some ⟨0x10000, 248, true, 0, 0, (0, 0), 0, 0⟩
  fetched := .ok emptyDescriptor
  prefetchInfo := prefetchInfo
  accessInfo := some ⟨0, 0, 0⟩
  applyInfo := some ⟨0, 0, 0⟩
  mapped := true

/-- A resume that finishes, with the only queue pair of the pool. -/
theorem queue_pairs_constant_resumed :
    let M := nodeMachine ⟨true, false, false⟩ Layout.packed sampleAlloc
    let as : List NodeAction := [.open, .resume 0 1 7 (foundEnv (some ⟨0, 0, 0⟩))]
    M.outputs (ResumeNode.boot (DCPool.new 1)) as = [.opened 0, .resumed (.ok 0)] ∧
      M.Always (fun s a => Balanced 1 (M.step s a).1.asyncPool (M.step s a).1.handlers)
        (ResumeNode.boot (DCPool.new 1)) as := by
  intro M as
  refine ⟨by decide +kernel, (queue_pairs_constant_iff rfl Layout.packed sampleAlloc 1 as).mpr ?_⟩
  exact ⟨trivial, fun _ _ _ => ⟨rfl, rfl, rfl, rfl⟩, trivial⟩

/-- `AccessInfo::new` fails in the decoder of the first resume: the only queue pair is
lost, and a second resume finds the pool empty although no handler holds a
descriptor. -/
theorem failed_resume_loses_queue_pair :
    let M := nodeMachine ⟨true, false, false⟩ Layout.packed sampleAlloc
    let as : List NodeAction := [.open, .resume 0 1 7 (foundEnv none),
      .resume 0 1 7 (foundEnv (some ⟨0, 0, 0⟩))]
    let s := M.run (ResumeNode.boot (DCPool.new 1)) as
    M.outputs (ResumeNode.boot (DCPool.new 1)) as =
        [.opened 0, .resumed (.ok (-1)), .resumed (.ok (-1))] ∧
      s.asyncPool.pool.length + Handlers.holding s.handlers = 0 := by
  intro M as s
  exact ⟨by decide +kernel, by decide +kernel⟩

end Mitosis.Resume
