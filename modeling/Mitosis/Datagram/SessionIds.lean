import Mathlib.Data.List.TakeWhile
import Mitosis.Datagram.Probe

/-!
# The session ids of a cluster at one hook

Every caller of every machine connects to a hook under an id that its machine
computes from its own machine id and the size of its own pool.  A machine whose
ids overflow aborts at the first one that does.  The ids of a machine are
consecutive, so they are those of no other machine exactly if the two ranges lie
apart.  A hook keeps one session for each id and turns down the second machine
that comes with it.
-/

namespace Mitosis.Datagram

open Mitosis.OsNetwork
open Mitosis.Rpc (calculateSessionId)
open Mitosis.Support

/-- A machine that probes the remote end, and the size of its caller pool. -/
structure Client where
  probe : Probe
  poolLen : ℕ

/-- Machines with different ids that probe the same remote end. -/
structure ClientCluster where
  clients : List Client
  distinct : (clients.map fun c => c.probe.macId).Nodup

namespace Client

/-- The ids under which the callers of a machine connect, up to the first caller whose ids
overflow. -/
def sessionIds (c : Client) : List ℕ :=
  ((List.range c.poolLen).takeWhile fun i => c.probe.IdsFit c.poolLen i).map
    (c.probe.mySessionId c.poolLen)

def firstId (c : Client) : ℕ := c.probe.macId * c.poolLen

/-- How many callers there are before the ids overflow, the own ones or those of the remote
machine. -/
def callers (c : Client) : ℕ :=
  min c.poolLen (min (2 ^ 64 - c.firstId) (2 ^ 64 - c.probe.remoteMachineId * c.poolLen))

/-- The ranges of ids, `callers` ids from `mac_id * poolLen` on, lie apart. -/
def Apart (c d : Client) : Prop :=
  c.callers = 0 ∨ d.callers = 0 ∨
    c.firstId + c.callers ≤ d.firstId ∨ d.firstId + d.callers ≤ c.firstId

instance (c d : Client) : Decidable (c.Apart d) := inferInstanceAs (Decidable (_ ∨ _ ∨ _))

theorem idsFit_iff {c : Client} {i : ℕ} (hi : i < c.poolLen) :
    c.probe.IdsFit c.poolLen i ↔ i < c.callers := by
  unfold Probe.IdsFit Probe.sessionId Probe.mySessionId calculateSessionId callers firstId
  omega

theorem takeWhile_idsFit (c : Client) :
    ((List.range c.poolLen).takeWhile fun i => c.probe.IdsFit c.poolLen i) =
      List.range c.callers := by
  have hle : c.callers ≤ c.poolLen := Nat.min_le_left _ _
  have hfit : ∀ i ∈ List.range c.callers, decide (c.probe.IdsFit c.poolLen i) = true := by
    intro i hi
    have hlt := List.mem_range.mp hi
    exact decide_eq_true ((idsFit_iff (hlt.trans_le hle)).mpr hlt)
  rcases hle.eq_or_lt with heq | hlt
  · rw [heq] at hfit ⊢
    exact List.takeWhile_eq_self_iff.mpr hfit
  · obtain ⟨rest, hrest⟩ := range_split hlt
    have hnot : ¬ c.probe.IdsFit c.poolLen c.callers := fun h =>
      Nat.lt_irrefl _ ((idsFit_iff hlt).mp h)
    rw [hrest, List.takeWhile_append_of_pos hfit,
      List.takeWhile_cons_of_neg (by simpa using hnot), List.append_nil]

theorem sessionIds_eq (c : Client) :
    c.sessionIds = (List.range c.callers).map (c.firstId + ·) := by
  rw [sessionIds, takeWhile_idsFit]
  rfl

theorem nodup_sessionIds (c : Client) : c.sessionIds.Nodup := by
  rw [sessionIds_eq]
  exact List.nodup_range.map (add_right_injective c.firstId)

theorem disjoint_iff (c d : Client) : c.sessionIds.Disjoint d.sessionIds ↔ c.Apart d := by
  simp only [sessionIds_eq, List.Disjoint, List.mem_map, List.mem_range]
  unfold Apart
  constructor
  · intro h
    by_contra hoverlap
    -- the greater of the two first ids lies in both ranges
    have hcommon := @h (max c.firstId d.firstId)
      ⟨max c.firstId d.firstId - c.firstId, by omega, by omega⟩
    exact hcommon ⟨max c.firstId d.firstId - d.firstId, by omega, by omega⟩
  · rintro h id ⟨i, hi, rfl⟩ ⟨j, hj, heq⟩
    omega

end Client

namespace ClientCluster

def sessionIds (cluster : ClientCluster) : List ℕ := cluster.clients.flatMap Client.sessionIds

theorem nodup_sessionIds_iff (cluster : ClientCluster) :
    cluster.sessionIds.Nodup ↔ cluster.clients.Pairwise Client.Apart := by
  rw [sessionIds, List.nodup_flatMap, and_iff_right fun c _ => c.nodup_sessionIds]
  exact List.Pairwise.iff fun c d => c.disjoint_iff d

end ClientCluster

/-! ## Connect messages at a hook -/

variable {σ Endpoint : Type} {W : Wire}

def Incoming.connectId : Incoming → Option ℕ
  | .connect sessionId _ => some sessionId
  | _ => none

/-- A connect message comes with metadata, and both factories succeed for it. -/
def Incoming.Works (env : PollEnv Endpoint) : Incoming → Prop
  | .connect _ metadata => env.sessionCreated = true ∧
      ∃ m endpoint, metadata = some m ∧ env.createMeta m = some endpoint
  | _ => True

namespace RPCHook

variable {hook : RPCHook σ Endpoint} {env : PollEnv Endpoint} {m : Incoming}

theorem react_of_duplicate {id : ℕ}
    (h : id ∈ hook.sessions.connected) (env : PollEnv Endpoint) (metadata : Option UDHyperMeta) :
    hook.react W env (.connect id metadata) = (hook, .error (.err .sessionCreationError)) :=
  if_pos h

theorem react_creationError_iff (hworks : m.Works env) :
    (hook.react W env m).2 = .error (.err .sessionCreationError) ↔
      ∃ id ∈ m.connectId, id ∈ hook.sessions.connected := by
  constructor
  · intro hfailed
    have h := reacts W hook env m
    generalize hook.react W env m = r at h hfailed
    cases h with
    | rejected h =>
      cases hfailed
      cases h with
      | duplicate hmem metadata => exact ⟨_, rfl, hmem⟩
      | noEndpoint _ hmeta =>
        obtain ⟨-, m, endpoint, hm, hendpoint⟩ := hworks
        cases hm
        rw [hmeta] at hendpoint
        cases hendpoint
      | noSession _ _ hcreated =>
        rw [hworks.1] at hcreated
        cases hcreated
    | accepted h => cases accept_eq_err hfailed
    | served h input => cases Sessions.sendReply_eq_err (Sessions.lookup_put _ _ _ _) hfailed
    | aborted => cases hfailed
    | dropped header => cases hfailed
  · rintro ⟨id, hid, hmem⟩
    cases m with
    | connect sessionId metadata =>
      cases hid
      rw [react_of_duplicate hmem]
    | corrupted | request | disConnect | unknown => cases hid

theorem mem_react_of_works (hworks : m.Works env) (id : ℕ) :
    id ∈ (hook.react W env m).1.sessions.connected ↔
      id ∈ hook.sessions.connected ∨ m.connectId = some id := by
  rw [mem_react]
  constructor
  · rintro (hmem | ⟨metadata, endpoint, rfl, -⟩)
    · exact Or.inl hmem
    · exact Or.inr rfl
  · rintro (hmem | hid)
    · exact Or.inl hmem
    cases m with
    | connect sessionId metadata =>
      cases hid
      by_cases hmem : id ∈ hook.sessions.connected
      · exact Or.inl hmem
      · obtain ⟨hcreated, m, endpoint, rfl, hmeta⟩ := hworks
        exact Or.inr ⟨m, endpoint, rfl, hmem, hmeta, hcreated⟩
    | corrupted | request | disConnect | unknown => cases hid

/-- The id of the connect message that a step takes. -/
def connectOf (W : Wire) (hook : RPCHook σ Endpoint) : HookAction Endpoint → Option ℕ
  | .poll env =>
    (UDReceiver.handedOut (hook.transport.poll env.recv).2).bind fun msg =>
      (decode W msg).connectId
  | .postMsgBuf _ _ => none

/-- The ids of the connect messages that a run takes. -/
def connectIds (W : Wire) : RPCHook σ Endpoint → List (HookAction Endpoint) → List ℕ
  | _, [] => []
  | hook, a :: as =>
    (hook.connectOf W a).toList ++ connectIds W ((hookMachine W).step hook a).1 as

/-- Metadata and factories work for the connect message that a step takes. -/
def FactoriesWork (W : Wire) (hook : RPCHook σ Endpoint) : HookAction Endpoint → Prop
  | .poll env => ∀ msg ∈ UDReceiver.handedOut (hook.transport.poll env.recv).2,
      (decode W msg).Works env
  | .postMsgBuf _ _ => True

end RPCHook

/-- The session that a message asks for is not created. -/
def HookOutput.Refuses : HookOutput → Prop
  | .polled _ _ ret => ret = .error (.err .sessionCreationError)
  | .posted _ => False

namespace RPCHook

variable {hook : RPCHook σ Endpoint}

theorem finish_creationError_iff {env : PollEnv Endpoint} {msg : UDMsg}
    {r : RPCHook σ Endpoint × Except (Halted HookError) Unit} :
    (finish env msg r).2 = .error (.err .sessionCreationError) ↔
      r.2 = .error (.err .sessionCreationError) := by
  constructor
  · intro h
    rcases finish_eq_err h with h | ⟨-, err, -, hinner⟩
    · exact h
    · cases hinner
  · obtain ⟨hook, ret⟩ := r
    rintro ⟨⟩
    rfl

/-- A step refuses the id of a session that exists, and a session exists for
every id that it takes. -/
theorem step_connectOf {a : HookAction Endpoint}
    (hworks : hook.FactoriesWork W a) :
    (((hookMachine W).step hook a).2.Refuses ↔
        ∃ id ∈ hook.connectOf W a, id ∈ hook.sessions.connected) ∧
      ∀ id, id ∈ ((hookMachine W).step hook a).1.sessions.connected ↔
        id ∈ hook.sessions.connected ∨ hook.connectOf W a = some id := by
  cases a with
  | postMsgBuf buf error => simp [hookMachine, HookOutput.Refuses, connectOf]
  | poll env =>
    dsimp only [hookMachine, HookOutput.Refuses, connectOf, FactoriesWork] at hworks ⊢
    cases hmsg : UDReceiver.handedOut (hook.transport.poll env.recv).2 with
    | none =>
      obtain ⟨hstate, hret⟩ := poll_of_not_ready (W := W) hmsg
      rw [hstate]
      refine ⟨iff_of_false ?_ (by simp), by simp⟩
      rcases hret with hret | ⟨err, hret⟩ <;> simp [hret]
    | some msg =>
      obtain ⟨transport, hready⟩ := UDReceiver.ready_of_handedOut hmsg
      have hmsgWorks := hworks msg hmsg
      rw [poll_of_ready hready, finish_creationError_iff, finish_sessions]
      exact ⟨react_creationError_iff hmsgWorks, mem_react_of_works hmsgWorks⟩

/-- A run refuses nothing exactly if all the ids it takes are new and
different. -/
theorem not_refuses_iff {as : List (HookAction Endpoint)}
    (hworks : (hookMachine W).Always (FactoriesWork W) hook as) :
    (∀ o ∈ (hookMachine W).outputs hook as, ¬ o.Refuses) ↔
      (hook.connectIds W as).Nodup ∧ ∀ id ∈ hook.connectIds W as, id ∉ hook.sessions.connected := by
  induction as generalizing hook with
  | nil => simp [connectIds]
  | cons a as ih =>
    obtain ⟨hfirst, hrest⟩ := hworks
    obtain ⟨hrefuses, hmem⟩ := step_connectOf hfirst
    rw [Machine.outputs_cons, List.forall_mem_cons, ih hrest, hrefuses, connectIds]
    simp only [hmem]
    cases hook.connectOf W a with
    | none => simp
    | some id =>
      -- the rest is new after the step: new before it and not this id
      simp only [Option.toList_some, List.singleton_append, List.nodup_cons,
        List.forall_mem_cons, Option.mem_def, Option.some.injEq, exists_eq_left', not_or]
      constructor
      · rintro ⟨hnew, hnodup, hothers⟩
        exact ⟨⟨fun hid => (hothers id hid).2 rfl, hnodup⟩, hnew,
          fun other hother => (hothers other hother).1⟩
      · rintro ⟨⟨hid, hnodup⟩, hnew, hothers⟩
        exact ⟨hnew, hnodup, fun other hother =>
          ⟨hothers other hother, fun heq => hid (heq ▸ hother)⟩⟩

end RPCHook

open RPCHook

/-- The session ids that the machines of a cluster connect with are different exactly if the
ranges of the machines lie apart.  A new hook that takes their connect messages in any order, between any other
traffic, refuses none of them in the same case. -/
theorem session_ids_distinct_iff (W : Wire) (σ Endpoint : Type) (cluster : ClientCluster) :
    (cluster.sessionIds.Nodup ↔ cluster.clients.Pairwise Client.Apart) ∧
      ∀ (service : Service σ) (transport : UDReceiver) (as : List (HookAction Endpoint)),
        (hookMachine W).Always (FactoriesWork W) (.new service transport) as →
        ((RPCHook.new service transport).connectIds W as).Perm cluster.sessionIds →
        ((∀ o ∈ (hookMachine W).outputs (.new service transport) as, ¬ o.Refuses) ↔
          cluster.clients.Pairwise Client.Apart) := by
  refine ⟨cluster.nodup_sessionIds_iff, ?_⟩
  intro service transport as hworks hperm
  rw [not_refuses_iff hworks, hperm.nodup_iff, cluster.nodup_sessionIds_iff]
  exact and_iff_left fun id _ => AList.notMem_empty id

/-- A machine that probes machine `9`. -/
def sampleClient (macId poolLen : ℕ) : Client :=
  ⟨⟨macId, 9, ⟨some (0, 0), 0, 0, 0⟩⟩, poolLen⟩

def connectMsgOf (id : UInt64) : UDMsg :=
  .plain (ConnectStubFactory.header ⟨id⟩ 40) (Wire.packed.hyper.encode default)

/-- Two machines with one caller each. -/
theorem session_ids_distinct_iff_one_caller :
    let cluster : ClientCluster := ⟨[sampleClient 1 1, sampleClient 2 1], by decide⟩
    let hook := hookWith [connectMsgOf 1, connectMsgOf 2]
    cluster.sessionIds = [1, 2] ∧ cluster.sessionIds.Nodup ∧
      ∀ o ∈ (hookMachine .packed).outputs hook [.poll calmEnv, .poll calmEnv], ¬ o.Refuses := by
  intro cluster hook
  have hapart : cluster.clients.Pairwise Client.Apart := by decide
  obtain ⟨hids, hruns⟩ := session_ids_distinct_iff .packed Unit ℕ cluster
  have hfirst : decode .packed (connectMsgOf 1) = .connect 1 (some default) := by decide +kernel
  have hsecond : decode .packed (connectMsgOf 2) = .connect 2 (some default) := by decide +kernel
  refine ⟨by decide, hids.mpr hapart, ?_⟩
  refine (hruns (.new ()) ⟨[connectMsgOf 1, connectMsgOf 2], []⟩ [.poll calmEnv, .poll calmEnv]
    ⟨?_, ?_, trivial⟩ ?_).mpr hapart
  · rintro msg ⟨⟩
    rw [hfirst]
    exact ⟨rfl, default, 0, rfl, rfl⟩
  · rintro msg ⟨⟩
    rw [hsecond]
    exact ⟨rfl, default, 0, rfl, rfl⟩
  · have hconnects : hook.connectIds .packed [.poll calmEnv, .poll calmEnv] = [1, 2] := by
      decide +kernel
    exact .of_eq hconnects

/-- Machine `1` has two callers and machine `2` has one.  Both of them come with
session `2`, and the one that comes later is refused. -/
theorem pools_of_different_size_collide :
    let cluster : ClientCluster := ⟨[sampleClient 1 2, sampleClient 2 1], by decide⟩
    let hook := hookWith [connectMsgOf 2, connectMsgOf 3, connectMsgOf 2]
    cluster.sessionIds = [2, 3, 2] ∧
      hook.connectIds .packed [.poll calmEnv, .poll calmEnv, .poll calmEnv] = [2, 3, 2] ∧
      ((hook.poll .packed calmEnv).1.poll .packed calmEnv).2 = .ok (.ready ()) ∧
      (((hook.poll .packed calmEnv).1.poll .packed calmEnv).1.poll .packed calmEnv).2 =
        .error (.err .sessionCreationError) := by
  decide +kernel

end Mitosis.Datagram
