import Mitosis.Rpc.Caller
import Mitosis.Support.KeyedMap
import Mitosis.Support.Outcome

/-!
# Reliable connections

Built with `use_rc`, every core has a pool with one connection to each machine.  A `Connect`
goes through the cores and stops at the first one that fails, and a core that has a
connection already counts as a failure.  A READ takes the connection of its own core, and
panics if there is none.

A pool is locked for one core of a call, not for the call, so the calls of several threads
mix core by core.  Of all the calls for a machine one counts nevertheless, the one that gets
a connection for core 0, and how far it gets is the state of the machine from then on.
-/

namespace Mitosis.RemotePaging

open Mitosis.Rpc (calculateSessionId)
open Mitosis.Support

/-! ## The pools -/

structure RCConfig where
  maxCallerNum : ℕ
  maxNicsUsed : ℕ
  hasNic : 0 < maxNicsUsed

/-- How to reach a machine; the gid is what `string_to_gid` makes of its text. -/
structure RCConnectInfo where
  gid : Option (UInt64 × UInt64)
  serviceId : ℕ
deriving DecidableEq

/-- `RC_SERVICE_ID_BASE`. -/
def rcServiceIdBase : ℕ := 33

def RCConnectInfo.create (cfg : RCConfig) (gid : Option (UInt64 × UInt64)) (nicIdx : ℕ) :
    RCConnectInfo :=
  ⟨gid, rcServiceIdBase + nicIdx % cfg.maxNicsUsed⟩

/-- A connection, by the NIC of its factory and what it was created for. -/
structure RCConn where
  nic : ℕ
  gid : UInt64 × UInt64
  serviceId : ℕ
deriving DecidableEq

/-- The connections of a core by session. -/
abbrev RCPool := AList fun _ : ℕ => RCConn

abbrev RCPools (cfg : RCConfig) := Fin cfg.maxCallerNum → RCPool

def sessionOf (cfg : RCConfig) (machineId idx : ℕ) : ℕ :=
  calculateSessionId machineId idx cfg.maxCallerNum

/-- `create_rc_connection`; the factory connects or fails. -/
def createRcConnection (cfg : RCConfig) (pool : RCPool) (idx machineId : ℕ)
    (info : RCConnectInfo) (created : Bool) : RCPool × Outcome Unit :=
  match Outcome.checked (sessionOf cfg machineId idx), info.gid with
  | .ok sessionId, some gid =>
    if sessionId ∈ pool then (pool, .error .absent)
    else if created then
      (pool.insert sessionId ⟨idx % cfg.maxNicsUsed, gid, info.serviceId⟩, .ok ())
    else (pool, .error .absent)
  | _, _ => (pool, .error .panicked)

/-- A `syscall_connect_rc` that has `next` cores behind it. -/
structure ConnectCall where
  machineId : ℕ
  info : RCConnectInfo
  next : ℕ

/-- The pools, and the call that every thread is in. -/
structure RCState (cfg : RCConfig) where
  pools : RCPools cfg
  calls : ℕ → Option ConnectCall

/-- The pools as they are loaded. -/
def RCState.init (cfg : RCConfig) : RCState cfg := ⟨fun _ => ∅, fun _ => none⟩

/-- A thread enters `syscall_connect_rc`, a thread does the next round of its loop, where the
factory connects or fails, or a READ looks for its connection. -/
inductive RCAction where
  | connect (thread machineId : ℕ) (gid : Option (UInt64 × UInt64)) (nicIdx : ℕ)
  | advance (thread : ℕ) (created : Bool)
  | read (cpuId macId : ℕ)

inductive RCOutput where
  | nothing
  | returned (machineId : ℕ) (r : Outcome ℤ)
  | read (cpuId macId : ℕ) (via : Outcome RCConn)
deriving DecidableEq

/-- What the call makes of a core that fails. -/
def connectResult : Stop → Outcome ℤ
  | .absent => .ok (-1)
  | .panicked => .error .panicked

/-- A round of the loop, or the return behind it. -/
def advanceCall (cfg : RCConfig) (s : RCState cfg) (thread : ℕ) (call : ConnectCall)
    (created : Bool) : RCState cfg × RCOutput :=
  if h : call.next < cfg.maxCallerNum then
    let (pool, r) :=
      createRcConnection cfg (s.pools ⟨call.next, h⟩) call.next call.machineId call.info created
    let pools := Function.update s.pools ⟨call.next, h⟩ pool
    match r with
    | .ok () =>
      (⟨pools, Function.update s.calls thread (some { call with next := call.next + 1 })⟩,
        .nothing)
    | .error stop =>
      (⟨pools, Function.update s.calls thread none⟩,
        .returned call.machineId (connectResult stop))
  else (⟨s.pools, Function.update s.calls thread none⟩, .returned call.machineId (.ok 0))

/-- The connection that `remote_read` takes on a core. -/
def connFor (cfg : RCConfig) (pools : RCPools cfg) (cpuId macId : ℕ) : Outcome RCConn := do
  let sessionId ← Outcome.checked (sessionOf cfg macId cpuId)
  let pool ← Outcome.unwrap (if h : cpuId < cfg.maxCallerNum then some (pools ⟨cpuId, h⟩) else none)
  Outcome.unwrap (pool.lookup sessionId)

def rcMachine (cfg : RCConfig) : Machine (RCState cfg) RCAction RCOutput where
  step s
    | .connect thread machineId gid nicIdx =>
      match s.calls thread with
      | some _ => (s, .nothing)
      | none =>
        (⟨s.pools,
          Function.update s.calls thread (some ⟨machineId, .create cfg gid nicIdx, 0⟩)⟩,
          .nothing)
    | .advance thread created =>
      match s.calls thread with
      | none => (s, .nothing)
      | some call => advanceCall cfg s thread call created
    | .read cpuId macId => (s, .read cpuId macId (connFor cfg s.pools cpuId macId))

/-! ## How far the machines are connected -/

/-- What is known of a machine: whom its first call reached, and how many cores it has
connected. -/
structure Reach where
  gid : UInt64 × UInt64
  serviceId : ℕ
  cores : ℕ

/-- The connection of a core. -/
def Reach.conn (cfg : RCConfig) (r : Reach) (i : ℕ) : Option RCConn :=
  if i < r.cores then some ⟨i % cfg.maxNicsUsed, r.gid, r.serviceId⟩ else none

/-- A call waits for core 0, or is the one that connects its machine. -/
inductive CallPhase where
  | waiting (machineId : ℕ) (info : RCConnectInfo)
  | connecting (machineId : ℕ)

structure ReachState where
  reach : ℕ → Option Reach
  calls : ℕ → Option CallPhase

def ReachState.init : ReachState := ⟨fun _ => none, fun _ => none⟩

def ReachState.finish (t : ReachState) (thread machineId : ℕ) (r : Outcome ℤ) :
    ReachState × RCOutput :=
  (⟨t.reach, Function.update t.calls thread none⟩, .returned machineId r)

/-- The first call to connect core 0 connects the machine, as far as it gets; all the others
fail. -/
def ReachState.advance (cfg : RCConfig) (t : ReachState) (thread : ℕ) (created : Bool) :
    ReachState × RCOutput :=
  match t.calls thread with
  | none => (t, .nothing)
  | some (.waiting m info) =>
    if cfg.maxCallerNum = 0 then t.finish thread m (.ok 0)
    else
      match info.gid, t.reach m with
      | none, _ => t.finish thread m (.error .panicked)
      | some _, some _ => t.finish thread m (.ok (-1))
      | some gid, none =>
        if created then
          (⟨Function.update t.reach m (some ⟨gid, info.serviceId, 1⟩),
            Function.update t.calls thread (some (.connecting m))⟩, .nothing)
        else t.finish thread m (.ok (-1))
  | some (.connecting m) =>
    match t.reach m with
    | none => (t, .nothing)
    | some r =>
      if r.cores = cfg.maxCallerNum then t.finish thread m (.ok 0)
      else if created then
        (⟨Function.update t.reach m (some { r with cores := r.cores + 1 }), t.calls⟩, .nothing)
      else t.finish thread m (.ok (-1))

/-- The connection of a core as far as its machine is connected. -/
def ReachState.connFor (cfg : RCConfig) (t : ReachState) (cpuId macId : ℕ) : Outcome RCConn :=
  if cpuId < cfg.maxCallerNum then Outcome.unwrap ((t.reach macId).bind (·.conn cfg cpuId))
  else .error .panicked

def reachMachine (cfg : RCConfig) : Machine ReachState RCAction RCOutput where
  step t
    | .connect thread machineId gid nicIdx =>
      match t.calls thread with
      | some _ => (t, .nothing)
      | none =>
        (⟨t.reach,
          Function.update t.calls thread (some (.waiting machineId (.create cfg gid nicIdx)))⟩,
          .nothing)
    | .advance thread created => t.advance cfg thread created
    | .read cpuId macId => (t, .read cpuId macId (t.connFor cfg cpuId macId))

/-! ## The pools of a machine -/

variable {cfg : RCConfig}

/-- The sessions of a machine are words. -/
def MachineInRange (cfg : RCConfig) (machineId : ℕ) : Prop :=
  machineId * cfg.maxCallerNum + cfg.maxCallerNum ≤ 2 ^ 64

instance (machineId : ℕ) : Decidable (MachineInRange cfg machineId) :=
  inferInstanceAs (Decidable (_ ≤ _))

variable {m i : ℕ}

theorem checked_sessionOf (hm : MachineInRange cfg m) (hi : i < cfg.maxCallerNum) :
    Outcome.checked (sessionOf cfg m i) = .ok (sessionOf cfg m i) := by
  unfold MachineInRange at hm
  refine Outcome.checked_of_lt ?_
  unfold sessionOf calculateSessionId
  omega

theorem sessionOf_inj {m m' i : ℕ} (hi : i < cfg.maxCallerNum) :
    sessionOf cfg m i = sessionOf cfg m' i ↔ m = m' := by
  refine ⟨fun h => ?_, fun h => h ▸ rfl⟩
  unfold sessionOf calculateSessionId at h
  exact Nat.eq_of_mul_eq_mul_right (by omega) (Nat.add_right_cancel h)

theorem lookup_update_insert (pools : RCPools cfg) {m m' : ℕ} (i j : Fin cfg.maxCallerNum)
    (c : RCConn) :
    ((Function.update pools i ((pools i).insert (sessionOf cfg m i) c)) j).lookup
        (sessionOf cfg m' j) =
      if j = i ∧ m' = m then some c else (pools j).lookup (sessionOf cfg m' j) := by
  by_cases hj : j = i
  · subst hj
    rw [Function.update_self, lookup_insert_eq]
    simp only [sessionOf_inj j.isLt, true_and]
  · rw [Function.update_of_ne hj, if_neg fun h => hj h.1]

theorem createRcConnection_of_none {pool : RCPool} (hm : MachineInRange cfg m)
    (hi : i < cfg.maxCallerNum) (h : pool.lookup (sessionOf cfg m i) = none) (gid : UInt64 × UInt64) (serviceId : ℕ)
    (created : Bool) :
    createRcConnection cfg pool i m ⟨some gid, serviceId⟩ created =
      if created then
        (pool.insert (sessionOf cfg m i) ⟨i % cfg.maxNicsUsed, gid, serviceId⟩, .ok ())
      else (pool, .error .absent) := by
  rw [createRcConnection, checked_sessionOf hm hi]
  exact if_neg (AList.lookup_eq_none.mp h)

theorem createRcConnection_of_some {pool : RCPool} {c : RCConn}
    (hm : MachineInRange cfg m) (hi : i < cfg.maxCallerNum)
    (h : pool.lookup (sessionOf cfg m i) = some c) (gid : UInt64 × UInt64) (serviceId : ℕ)
    (created : Bool) :
    createRcConnection cfg pool i m ⟨some gid, serviceId⟩ created = (pool, .error .absent) := by
  rw [createRcConnection, checked_sessionOf hm hi]
  exact if_pos (mem_of_lookup h)

theorem createRcConnection_of_no_gid (pool : RCPool) (m i serviceId : ℕ) (created : Bool) :
    createRcConnection cfg pool i m ⟨none, serviceId⟩ created = (pool, .error .panicked) := by
  unfold createRcConnection
  cases Outcome.checked (sessionOf cfg m i) <;> rfl

/-! ## The pools follow -/

/-- How a call stands behind its phase. -/
inductive Follows (cfg : RCConfig) (reach : ℕ → Option Reach) :
    Option ConnectCall → Option CallPhase → Prop
  | idle : Follows cfg reach none none
  | waiting {m : ℕ} {info : RCConnectInfo} (hm : MachineInRange cfg m) :
      Follows cfg reach (some ⟨m, info, 0⟩) (some (.waiting m info))
  | connecting {m : ℕ} {r : Reach} (hm : MachineInRange cfg m) (hr : reach m = some r) :
      Follows cfg reach (some ⟨m, ⟨some r.gid, r.serviceId⟩, r.cores⟩) (some (.connecting m))

variable {p : Option CallPhase}

theorem Follows.update {reach : ℕ → Option Reach} {c : Option ConnectCall}
    (h : Follows cfg reach c p) {m : ℕ} (hp : p ≠ some (.connecting m))
    (x : Option Reach) : Follows cfg (Function.update reach m x) c p := by
  cases h with
  | idle => exact .idle
  | waiting hm => exact .waiting hm
  | @connecting m' r hm hr =>
    refine .connecting hm ?_
    have hne : m' ≠ m := by
      rintro rfl
      exact hp rfl
    rw [Function.update_of_ne hne, hr]

/-- The pools hold what the machines are connected to, and at most one call connects a
machine. -/
structure Refines (cfg : RCConfig) (s : RCState cfg) (t : ReachState) : Prop where
  pools : ∀ m, MachineInRange cfg m → ∀ i : Fin cfg.maxCallerNum,
    (s.pools i).lookup (sessionOf cfg m i) = (t.reach m).bind (·.conn cfg i)
  calls : ∀ thread, Follows cfg t.reach (s.calls thread) (t.calls thread)
  cores : ∀ m r, t.reach m = some r → 0 < r.cores ∧ r.cores ≤ cfg.maxCallerNum
  unique : ∀ m thread thread', t.calls thread = some (.connecting m) →
    t.calls thread' = some (.connecting m) → thread = thread'

theorem refines_init : Refines cfg (RCState.init cfg) ReachState.init where
  pools _ _ _ := rfl
  calls _ := .idle
  cores _ _ h := absurd h.symm (Option.some_ne_none _)
  unique _ _ _ h := absurd h.symm (Option.some_ne_none _)

section Steps

variable {s : RCState cfg} {t : ReachState} {thread : ℕ}

variable {r : Reach}

theorem Refines.update (h : Refines cfg s t) {c : Option ConnectCall}
    (hcall : Follows cfg t.reach c p) (hp : ∀ m, p ≠ some (.connecting m)) :
    Refines cfg ⟨s.pools, Function.update s.calls thread c⟩
      ⟨t.reach, Function.update t.calls thread p⟩ where
  pools := h.pools
  calls th := by
    by_cases hth : th = thread
    · subst hth
      simpa only [Function.update_self] using hcall
    · simpa only [Function.update_of_ne hth] using h.calls th
  cores := h.cores
  unique m th th' hth hth' := by
    have hold : ∀ th, Function.update t.calls thread p th = some (.connecting m) →
        t.calls th = some (.connecting m) := by
      intro th hth
      by_cases heq : th = thread
      · rw [heq, Function.update_self] at hth
        exact absurd hth (hp m)
      · rwa [Function.update_of_ne heq] at hth
    exact h.unique m th th' (hold th hth) (hold th' hth')

theorem Refines.finish (h : Refines cfg s t) :
    Refines cfg ⟨s.pools, Function.update s.calls thread none⟩
      ⟨t.reach, Function.update t.calls thread none⟩ :=
  h.update .idle fun _ => (Option.some_ne_none _).symm

theorem Refines.connectCore (h : Refines cfg s t) {m : ℕ}
    (hm : MachineInRange cfg m) (hcores : r.cores < cfg.maxCallerNum)
    (hreach : ∀ i, (t.reach m).bind (·.conn cfg i) = r.conn cfg i)
    (hother : ∀ th, th ≠ thread → t.calls th ≠ some (.connecting m)) :
    Refines cfg
      ⟨Function.update s.pools ⟨r.cores, hcores⟩
          ((s.pools ⟨r.cores, hcores⟩).insert (sessionOf cfg m r.cores)
            ⟨r.cores % cfg.maxNicsUsed, r.gid, r.serviceId⟩),
        Function.update s.calls thread
          (some ⟨m, ⟨some r.gid, r.serviceId⟩, r.cores + 1⟩)⟩
      ⟨Function.update t.reach m (some { r with cores := r.cores + 1 }),
        Function.update t.calls thread (some (.connecting m))⟩ where
  pools m' hm' j := by
    rw [lookup_update_insert s.pools ⟨r.cores, hcores⟩ j _, h.pools m' hm' j]
    dsimp only
    by_cases hmm : m' = m
    · subst hmm
      rw [Function.update_self, hreach, Option.bind_some, Reach.conn, Reach.conn]
      simp only [Fin.ext_iff, and_true]
      split_ifs <;> first | omega | simp_all
    · rw [Function.update_of_ne hmm, if_neg fun hh => hmm hh.2]
  calls th := by
    by_cases hth : th = thread
    · subst hth
      simp only [Function.update_self]
      exact .connecting hm (Function.update_self ..)
    · simp only [Function.update_of_ne hth]
      exact (h.calls th).update (hother th hth) _
  cores m' r' hr' := by
    dsimp only at hr'
    by_cases hmm : m' = m
    · subst hmm
      rw [Function.update_self] at hr'
      cases hr'
      exact ⟨Nat.succ_pos _, hcores⟩
    · rw [Function.update_of_ne hmm] at hr'
      exact h.cores m' r' hr'
  unique m' th th' hth hth' := by
    by_cases hmm : m' = m
    · have hthread : ∀ th, Function.update t.calls thread (some (.connecting m)) th =
          some (.connecting m') → th = thread := by
        intro th hth
        by_contra hne
        rw [Function.update_of_ne hne, hmm] at hth
        exact hother th hne hth
      rw [hthread th hth, hthread th' hth']
    · have hold : ∀ th, Function.update t.calls thread (some (.connecting m)) th =
          some (.connecting m') → t.calls th = some (.connecting m') := by
        intro th hth
        by_cases heq : th = thread
        · rw [heq, Function.update_self] at hth
          cases hth
          exact absurd rfl hmm
        · rwa [Function.update_of_ne heq] at hth
      exact h.unique m' th th' (hold th hth) (hold th' hth')

/-! ## The rounds of a call -/

theorem advanceCall_error (call : ConnectCall) {created : Bool} {stop : Stop}
    (hnext : call.next < cfg.maxCallerNum)
    (hcreate : createRcConnection cfg (s.pools ⟨call.next, hnext⟩) call.next call.machineId
      call.info created = (s.pools ⟨call.next, hnext⟩, .error stop)) :
    advanceCall cfg s thread call created =
      (⟨s.pools, Function.update s.calls thread none⟩,
        .returned call.machineId (connectResult stop)) := by
  rw [advanceCall, dif_pos hnext, hcreate]
  dsimp only
  rw [Function.update_eq_self]

theorem advanceCall_end {call : ConnectCall} (hnext : ¬call.next < cfg.maxCallerNum)
    (created : Bool) :
    advanceCall cfg s thread call created =
      (⟨s.pools, Function.update s.calls thread none⟩, .returned call.machineId (.ok 0)) :=
  dif_neg hnext

theorem advanceCall_none {gid : UInt64 × UInt64} {serviceId : ℕ}
    (hm : MachineInRange cfg m) (hi : i < cfg.maxCallerNum)
    (hnone : (s.pools ⟨i, hi⟩).lookup (sessionOf cfg m i) = none) (created : Bool) :
    advanceCall cfg s thread ⟨m, ⟨some gid, serviceId⟩, i⟩ created =
      if created then
        (⟨Function.update s.pools ⟨i, hi⟩ ((s.pools ⟨i, hi⟩).insert (sessionOf cfg m i)
              ⟨i % cfg.maxNicsUsed, gid, serviceId⟩),
          Function.update s.calls thread (some ⟨m, ⟨some gid, serviceId⟩, i + 1⟩)⟩, .nothing)
      else (⟨s.pools, Function.update s.calls thread none⟩, .returned m (.ok (-1))) := by
  have hcreate := createRcConnection_of_none hm hi hnone gid serviceId created
  cases created with
  | false => exact advanceCall_error ⟨m, ⟨some gid, serviceId⟩, i⟩ hi hcreate
  | true =>
    rw [advanceCall, dif_pos hi]
    dsimp only
    rw [hcreate]
    rfl

theorem Refines.advance_waiting (h : Refines cfg s t) {m : ℕ} {info : RCConnectInfo}
    (hm : MachineInRange cfg m) (hphase : t.calls thread = some (.waiting m info))
    (created : Bool) :
    Refines cfg (advanceCall cfg s thread ⟨m, info, 0⟩ created).1 (t.advance cfg thread created).1 ∧
      (advanceCall cfg s thread ⟨m, info, 0⟩ created).2 = (t.advance cfg thread created).2 := by
  rw [ReachState.advance, hphase]
  dsimp only
  by_cases hcores : cfg.maxCallerNum = 0
  · rw [if_pos hcores, advanceCall_end (by simp [hcores])]
    exact ⟨h.finish, rfl⟩
  rw [if_neg hcores]
  have hzero : 0 < cfg.maxCallerNum := Nat.pos_of_ne_zero hcores
  obtain ⟨_ | gid, serviceId⟩ := info
  · rw [advanceCall_error ⟨m, ⟨none, serviceId⟩, 0⟩ hzero (createRcConnection_of_no_gid ..)]
    exact ⟨h.finish, rfl⟩
  have hlookup := h.pools m hm ⟨0, hzero⟩
  cases hreach : t.reach m with
  | some r =>
    -- A machine that is connected at all is connected on core 0.
    rw [hreach, Option.bind_some, Reach.conn, if_pos (h.cores m r hreach).1] at hlookup
    rw [advanceCall_error ⟨m, ⟨some gid, serviceId⟩, 0⟩ hzero
      (createRcConnection_of_some hm hzero hlookup gid serviceId created)]
    exact ⟨h.finish, rfl⟩
  | none =>
    rw [hreach, Option.bind_none] at hlookup
    rw [advanceCall_none hm hzero hlookup]
    cases created with
    | false => exact ⟨h.finish, rfl⟩
    | true =>
      refine ⟨h.connectCore (r := ⟨gid, serviceId, 0⟩) hm hzero ?_ ?_, rfl⟩
      · intro i
        rw [hreach]
        rfl
      · -- No call connects a machine that is not connected on any core.
        intro th _ hth
        have hcall := h.calls th
        rw [hth] at hcall
        generalize s.calls th = c at hcall
        cases hcall with
        | connecting _ hr => exact Option.some_ne_none _ (hr.symm.trans hreach)

theorem ReachState.advance_connecting {m : ℕ} (hr : t.reach m = some r)
    (hphase : t.calls thread = some (.connecting m)) (created : Bool) :
    t.advance cfg thread created =
      if r.cores = cfg.maxCallerNum then t.finish thread m (.ok 0)
      else if created then
        (⟨Function.update t.reach m (some { r with cores := r.cores + 1 }), t.calls⟩, .nothing)
      else t.finish thread m (.ok (-1)) := by
  rw [ReachState.advance, hphase]
  dsimp only
  rw [hr]

theorem Refines.advance_connecting (h : Refines cfg s t) {m : ℕ}
    (hm : MachineInRange cfg m) (hr : t.reach m = some r)
    (hphase : t.calls thread = some (.connecting m)) (created : Bool) :
    Refines cfg (advanceCall cfg s thread ⟨m, ⟨some r.gid, r.serviceId⟩, r.cores⟩ created).1
        (t.advance cfg thread created).1 ∧
      (advanceCall cfg s thread ⟨m, ⟨some r.gid, r.serviceId⟩, r.cores⟩ created).2 =
        (t.advance cfg thread created).2 := by
  rw [ReachState.advance_connecting hr hphase]
  by_cases hend : r.cores = cfg.maxCallerNum
  · rw [if_pos hend, advanceCall_end (by simp [hend])]
    exact ⟨h.finish, rfl⟩
  have hcores : r.cores < cfg.maxCallerNum := lt_of_le_of_ne (h.cores m r hr).2 hend
  have hlookup := h.pools m hm ⟨r.cores, hcores⟩
  rw [hr, Option.bind_some, Reach.conn, if_neg (lt_irrefl _)] at hlookup
  rw [if_neg hend, advanceCall_none hm hcores hlookup]
  cases created with
  | false => exact ⟨h.finish, rfl⟩
  | true =>
    have hstep := h.connectCore hm hcores (by simp [hr]) fun th hne hth =>
      hne (h.unique m th thread hth hphase)
    rw [show Function.update t.calls thread (some (.connecting m)) = t.calls by
      rw [← hphase, Function.update_eq_self]] at hstep
    exact ⟨hstep, rfl⟩

end Steps

/-! ## Runs -/

/-- The machines of an action are in range. -/
def RCAction.InRange (cfg : RCConfig) : RCAction → Prop
  | .connect _ machineId _ _ => MachineInRange cfg machineId
  | .advance _ _ => True
  | .read _ macId => MachineInRange cfg macId

instance : DecidablePred (RCAction.InRange cfg)
  | .connect _ _ _ _ => inferInstanceAs (Decidable (MachineInRange cfg _))
  | .advance _ _ => inferInstanceAs (Decidable True)
  | .read _ _ => inferInstanceAs (Decidable (MachineInRange cfg _))

variable {s : RCState cfg}

theorem Refines.connFor {t : ReachState} (h : Refines cfg s t) {m : ℕ}
    (hm : MachineInRange cfg m) (cpuId : ℕ) :
    connFor cfg s.pools cpuId m = t.connFor cfg cpuId m := by
  unfold RemotePaging.connFor ReachState.connFor
  by_cases hcpu : cpuId < cfg.maxCallerNum
  · rw [dif_pos hcpu, if_pos hcpu, checked_sessionOf hm hcpu, Outcome.ok_bind,
      Outcome.unwrap_some, Outcome.ok_bind, h.pools m hm ⟨cpuId, hcpu⟩]
  · rw [dif_neg hcpu, if_neg hcpu]
    unfold Outcome.checked
    split <;> rfl

theorem refines_step (s : RCState cfg) (t : ReachState) (a : RCAction) (h : Refines cfg s t)
    (ha : a.InRange cfg) :
    Refines cfg ((rcMachine cfg).step s a).1 ((reachMachine cfg).step t a).1 ∧
      ((rcMachine cfg).step s a).2 = ((reachMachine cfg).step t a).2 := by
  cases a with
  | connect thread machineId gid nicIdx =>
    have hcall := h.calls thread
    dsimp only [rcMachine, reachMachine]
    generalize hc : s.calls thread = c at hcall
    generalize hp : t.calls thread = p at hcall
    cases hcall with
    | idle => exact ⟨h.update (.waiting ha) fun _ => by simp, rfl⟩
    | waiting _ => exact ⟨h, rfl⟩
    | connecting _ _ => exact ⟨h, rfl⟩
  | advance thread created =>
    have hcall := h.calls thread
    dsimp only [rcMachine, reachMachine]
    generalize hc : s.calls thread = c at hcall
    generalize hp : t.calls thread = p at hcall
    cases hcall with
    | idle =>
      rw [ReachState.advance, hp]
      exact ⟨h, rfl⟩
    | waiting hm => exact h.advance_waiting hm hp created
    | connecting hm hr => exact h.advance_connecting hm hr hp created
  | read cpuId macId => exact ⟨h, congrArg _ (h.connFor ha cpuId)⟩

theorem refines_run {as : List RCAction} (has : ∀ a ∈ as, a.InRange cfg) :
    Refines cfg ((rcMachine cfg).run (RCState.init cfg) as)
        ((reachMachine cfg).run ReachState.init as) ∧
      (rcMachine cfg).outputs (RCState.init cfg) as =
        (reachMachine cfg).outputs ReachState.init as :=
  Machine.simulation refines_step refines_init has

/-- However the calls of the threads mix, the pools answer as if only the first call that
connects core 0 counted. -/
theorem rc_pools_refine_reach {as : List RCAction} (has : ∀ a ∈ as, a.InRange cfg) :
    (rcMachine cfg).outputs (RCState.init cfg) as =
        (reachMachine cfg).outputs ReachState.init as ∧
      ∀ m, MachineInRange cfg m → ∀ cpuId,
        connFor cfg ((rcMachine cfg).run (RCState.init cfg) as).pools cpuId m =
          ((reachMachine cfg).run ReachState.init as).connFor cfg cpuId m := by
  obtain ⟨hrefines, houtputs⟩ := refines_run has
  exact ⟨houtputs, fun m hm cpuId => hrefines.connFor hm cpuId⟩

/-- Two cores and a NIC. -/
def sampleRCConfig : RCConfig := ⟨2, 1, Nat.one_pos⟩

/-- Thread 1 comes between the rounds of thread 0. -/
def sampleCalls : List RCAction :=
  [.connect 0 5 (some (7, 8)) 3, .advance 0 true, .connect 1 5 (some (7, 8)) 3, .advance 1 true]

theorem sampleCalls_inRange : ∀ a ∈ sampleCalls, a.InRange sampleRCConfig := by decide

/-- Both connects fail, thread 1 on core 0 and thread 0 on core 1. -/
theorem rc_pools_refine_reach_two_threads :
    (rcMachine sampleRCConfig).outputs (RCState.init sampleRCConfig)
        (sampleCalls ++ [.advance 0 false, .read 0 5]) =
      [.nothing, .nothing, .nothing, .returned 5 (.ok (-1)), .returned 5 (.ok (-1)),
        .read 0 5 (.ok ⟨0, (7, 8), 33⟩)] :=
  (rc_pools_refine_reach (by decide)).1.trans (by decide)

/-- No call that connects the machine is under way. -/
def ReachState.Settled (m : ℕ) (r : Reach) (t : ReachState) : Prop :=
  t.reach m = some r ∧ ∀ thread, t.calls thread ≠ some (.connecting m)

/-- The result of a call that does not connect the machine. -/
def FailedFor (m : ℕ) (o : RCOutput) : Prop :=
  ∀ r, o = .returned m r → r = .ok (-1) ∨ r = .error .panicked

theorem failedFor_nothing (m : ℕ) : FailedFor m .nothing := fun _ h => RCOutput.noConfusion h

theorem failedFor_of_ne {m m' : ℕ} (h : m' ≠ m) (r : Outcome ℤ) :
    FailedFor m (.returned m' r) := by
  rintro r' hr'
  cases hr'
  exact absurd rfl h

theorem failedFor_of_result {m m' : ℕ} {r : Outcome ℤ} (h : r = .ok (-1) ∨ r = .error .panicked) :
    FailedFor m (.returned m' r) := by
  rintro r' hr'
  cases hr'
  exact h

section Settled

variable {t : ReachState} {m : ℕ} {r : Reach}

theorem ReachState.Settled.update (h : t.Settled m r) (thread : ℕ)
    (hp : p ≠ some (.connecting m)) :
    ReachState.Settled m r ⟨t.reach, Function.update t.calls thread p⟩ := by
  refine ⟨h.1, fun th => ?_⟩
  by_cases hth : th = thread
  · subst hth
    simpa only [Function.update_self] using hp
  · simpa only [Function.update_of_ne hth] using h.2 th

theorem ReachState.Settled.finish (h : t.Settled m r) (thread m' : ℕ) (result : Outcome ℤ) :
    (t.finish thread m' result).1.Settled m r :=
  h.update thread (Option.some_ne_none _).symm

theorem ReachState.Settled.reach_ne (h : t.Settled m r) {m' : ℕ} (hm' : m' ≠ m)
    (x : Option Reach) : ReachState.Settled m r ⟨Function.update t.reach m' x, t.calls⟩ :=
  ⟨(Function.update_of_ne hm'.symm _ _).trans h.1, h.2⟩

theorem ReachState.Settled.advance (h : t.Settled m r) (hcores : 0 < cfg.maxCallerNum)
    (thread : ℕ) (created : Bool) :
    (t.advance cfg thread created).1.Settled m r ∧
      FailedFor m (t.advance cfg thread created).2 := by
  unfold ReachState.advance
  rcases hphase : t.calls thread with _ | ⟨m', info⟩ | m'
  · exact ⟨h, failedFor_nothing m⟩
  · dsimp only
    rw [if_neg hcores.ne']
    rcases info.gid with _ | gid
    · exact ⟨h.finish _ _ _, failedFor_of_result (.inr rfl)⟩
    rcases hreach : t.reach m' with _ | r'
    · have hne : m' ≠ m := by
        rintro rfl
        exact Option.some_ne_none _ (h.1.symm.trans hreach)
      cases created with
      | false => exact ⟨h.finish _ _ _, failedFor_of_result (.inl rfl)⟩
      | true =>
        refine ⟨(h.reach_ne hne _).update thread ?_, failedFor_nothing m⟩
        simpa using hne
    · exact ⟨h.finish _ _ _, failedFor_of_result (.inl rfl)⟩
  · have hne : m' ≠ m := by
      rintro rfl
      exact h.2 thread hphase
    dsimp only
    rcases t.reach m' with _ | r'
    · exact ⟨h, failedFor_nothing m⟩
    dsimp only
    split_ifs with hend hcreated
    · exact ⟨h.finish _ _ _, failedFor_of_ne hne _⟩
    · exact ⟨h.reach_ne hne _, failedFor_nothing m⟩
    · exact ⟨h.finish _ _ _, failedFor_of_result (.inl rfl)⟩

/-- Once the call that connects a machine has returned, nothing changes for the machine, and
no other call for it succeeds. -/
theorem ReachState.Settled.step (h : t.Settled m r) (hcores : 0 < cfg.maxCallerNum)
    (a : RCAction) :
    ((reachMachine cfg).step t a).1.Settled m r ∧
      FailedFor m ((reachMachine cfg).step t a).2 := by
  cases a with
  | connect thread machineId gid nicIdx =>
    dsimp only [reachMachine]
    rcases t.calls thread with _ | phase
    · exact ⟨h.update thread (by simp), failedFor_nothing m⟩
    · exact ⟨h, failedFor_nothing m⟩
  | advance thread created => exact h.advance hcores thread created
  | read cpuId macId => exact ⟨h, fun _ hr => RCOutput.noConfusion hr⟩

theorem settled_run (h : Refines cfg s t) (hset : t.Settled m r)
    (hm : MachineInRange cfg m) (hcores : 0 < cfg.maxCallerNum) {bs : List RCAction}
    (hbs : ∀ b ∈ bs, b.InRange cfg) :
    (∀ cpuId, connFor cfg ((rcMachine cfg).run s bs).pools cpuId m =
        connFor cfg s.pools cpuId m) ∧
      ∀ o ∈ (rcMachine cfg).outputs s bs, FailedFor m o := by
  obtain ⟨hrefines, houtputs⟩ := Machine.simulation refines_step h hbs
  have hstep : ∀ t a, t.Settled m r → True → ((reachMachine cfg).step t a).1.Settled m r ∧
      FailedFor m ((reachMachine cfg).step t a).2 := fun t a ht _ => ht.step hcores a
  have hall := Machine.always_of_forall (M := reachMachine cfg) (fun _ _ => True.intro) t bs
  constructor
  · intro cpuId
    have hset' : ((reachMachine cfg).run t bs).Settled m r :=
      Machine.invariant _ (fun t a ht ha => (hstep t a ht ha).1) hset hall
    rw [hrefines.connFor hm, h.connFor hm, ReachState.connFor, ReachState.connFor, hset'.1, hset.1]
  · rw [houtputs]
    exact Machine.outputs_of_invariant _ _ hstep hset hall

/-- The call that connects a machine returns 0 behind the last core, and -1 before. -/
theorem Refines.settled_of_returned (h : Refines cfg s t) {thread : ℕ}
    {created : Bool} {call : ConnectCall} {m' : ℕ} {result : Outcome ℤ}
    (hcall : s.calls thread = some call) (hnext : 0 < call.next)
    (hret : ((rcMachine cfg).step s (.advance thread created)).2 = .returned m' result) :
    MachineInRange cfg call.machineId ∧
      ∃ r, ((reachMachine cfg).step t (.advance thread created)).1.Settled call.machineId r ∧
        0 < r.cores ∧ r.cores ≤ cfg.maxCallerNum ∧
        (result = .ok 0 ∧ r.cores = cfg.maxCallerNum ∨
          result = .ok (-1) ∧ r.cores ≠ cfg.maxCallerNum) := by
  rw [(refines_step s t (.advance thread created) h trivial).2] at hret
  have hfollows := h.calls thread
  rw [hcall] at hfollows
  generalize hphase : t.calls thread = p at hfollows
  cases hfollows with
  | waiting _ => exact absurd hnext (lt_irrefl 0)
  | @connecting m r hm hr =>
    have hsettled : ∀ x, (t.finish thread m x).1.Settled m r := by
      refine fun x => ⟨hr, fun th hth => ?_⟩
      dsimp only [ReachState.finish] at hth
      have hne : th ≠ thread := by
        rintro rfl
        rw [Function.update_self] at hth
        exact Option.some_ne_none _ hth.symm
      rw [Function.update_of_ne hne] at hth
      exact hne (h.unique m th thread hth hphase)
    change (t.advance cfg thread created).2 = _ at hret
    refine ⟨hm, r, ?_⟩
    change (t.advance cfg thread created).1.Settled m r ∧ _
    rw [ReachState.advance_connecting hr hphase] at hret ⊢
    split_ifs at hret ⊢ with hend hcreated
    · cases hret
      exact ⟨hsettled _, hnext, hend.le, .inl ⟨rfl, hend⟩⟩
    · cases hret
      exact ⟨hsettled _, hnext, (h.cores _ r hr).2, .inr ⟨rfl, hend⟩⟩

/-- When the call that connects a machine returns, it is decided: it returns 0 if and only if
every core has a connection.  Nothing changes for the machine afterwards, and every other call
for it fails. -/
theorem connect_decides {as : List RCAction} (has : ∀ a ∈ as, a.InRange cfg) {s : RCState cfg}
    (hs : s = (rcMachine cfg).run (RCState.init cfg) as) {thread : ℕ} {created : Bool}
    {call : ConnectCall} {m' : ℕ} {result : Outcome ℤ}
    (hcall : s.calls thread = some call) (hnext : 0 < call.next)
    (hret : ((rcMachine cfg).step s (.advance thread created)).2 = .returned m' result) :
    let s' := ((rcMachine cfg).step s (.advance thread created)).1
    (result = .ok 0 ∨ result = .ok (-1)) ∧
      (result = .ok 0 ↔ ∀ cpuId < cfg.maxCallerNum,
        connFor cfg s'.pools cpuId call.machineId ≠ .error .panicked) ∧
      ∀ bs : List RCAction, (∀ b ∈ bs, b.InRange cfg) →
        (∀ cpuId, connFor cfg ((rcMachine cfg).run s' bs).pools cpuId call.machineId =
            connFor cfg s'.pools cpuId call.machineId) ∧
          ∀ o ∈ (rcMachine cfg).outputs s' bs, FailedFor call.machineId o := by
  intro s'
  have hrefines := hs ▸ (refines_run has).1
  obtain ⟨hm, r, hset, hpos, hle, hresult⟩ := hrefines.settled_of_returned hcall hnext hret
  have hrefines' := (refines_step _ _ (.advance thread created) hrefines trivial).1
  refine ⟨hresult.imp And.left And.left, ?_, fun bs hbs =>
    settled_run hrefines' hset hm (hpos.trans_le hle) hbs⟩
  -- The core behind the connected ones is where a partial call shows.
  have hconn : ∀ cpuId < cfg.maxCallerNum,
      (connFor cfg s'.pools cpuId call.machineId ≠ .error .panicked ↔ cpuId < r.cores) := by
    intro cpuId hcpu
    rw [hrefines'.connFor hm, ReachState.connFor, if_pos hcpu, hset.1, Option.bind_some, Reach.conn]
    split_ifs with hlt <;> simp [hlt]
  obtain ⟨rfl, hall⟩ | ⟨rfl, hpart⟩ := hresult
  · exact iff_of_true rfl fun cpuId hcpu => (hconn cpuId hcpu).mpr (hall.symm ▸ hcpu)
  · refine iff_of_false (by decide) fun hall => ?_
    have hlt := lt_of_le_of_ne hle hpart
    exact lt_irrefl _ ((hconn r.cores hlt).mp (hall r.cores hlt))

/-- Thread 0 fails on core 1, which then stays without a connection. -/
theorem connect_decides_two_cores :
    let s := (rcMachine sampleRCConfig).run (RCState.init sampleRCConfig) sampleCalls
    let s' := ((rcMachine sampleRCConfig).step s (.advance 0 false)).1
    connFor sampleRCConfig s'.pools 1 5 = .error .panicked ∧
      ∀ bs : List RCAction, (∀ b ∈ bs, b.InRange sampleRCConfig) →
        connFor sampleRCConfig ((rcMachine sampleRCConfig).run s' bs).pools 1 5 =
          .error .panicked := by
  intro s s'
  have hnow : connFor sampleRCConfig s'.pools 1 5 = .error .panicked := by decide
  have hdecides := connect_decides sampleCalls_inRange rfl
    (show s.calls 0 = some ⟨5, .create sampleRCConfig (some (7, 8)) 3, 1⟩ by rfl) Nat.one_pos
    (show ((rcMachine sampleRCConfig).step s (.advance 0 false)).2 = .returned 5 (.ok (-1)) by
      decide)
  exact ⟨hnow, fun bs hbs => ((hdecides.2.2 bs hbs).1 1).trans hnow⟩

end Settled

end Mitosis.RemotePaging
