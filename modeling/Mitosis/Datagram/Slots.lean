import Mitosis.Datagram.Completions

/-!
# The slots of the queue pair of a hook

A hook replies on one queue pair for all sessions.  A session drains the queue when it has
five pending sends, and then takes one completion for them, the oldest one there is.  A
slot of the queue is free again when a completion for its send or for a later one was
polled, so the taken slots depend on which completions were polled, not on how many.

With `N` sessions at most `8 * N + 1` slots are taken (`ReplyRun.unreclaimed_le`).
-/

namespace Mitosis.Datagram

open Mitosis.OsNetwork
open Mitosis.Support

variable {σ Endpoint : Type} {W : Wire}

/-- `MAX_SEND_WR`. -/
def maxSendWr : ℕ := 2048

def Sessions.pending (s : Sessions Endpoint) : ℕ :=
  tally (fun entry => entry.1.pending) s.connected

def Sessions.count (s : Sessions Endpoint) : ℕ := s.connected.keys.length

/-! ## What a call does to the slots -/

/-- A session polls one completion for five sends, and posts at most one send, signaled if
none of its sends is pending. -/
structure Slotted (p p' : Port Endpoint) : Prop where
  balanced : Balanced p p'
  length : p'.1.works.length + 5 * p.1.polled.length + p.2.pending =
    p.1.works.length + 5 * p'.1.polled.length + p'.2.pending
  works : p'.1.works = p.1.works ∨ ∃ send, p'.1.works = p.1.works ++ [(send, p.2.pending == 0)]

variable {p p' : Port Endpoint}

theorem Slotted.refl (p : Port Endpoint) : Slotted p p := ⟨.refl p, rfl, Or.inl rfl⟩

theorem slotted_posted (id : ℕ) (message : List UInt8) (p : Port Endpoint) :
    Slotted p (posted id message (p.2.pending == 0) p) := by
  refine ⟨balanced_posted id message p, ?_, Or.inr ⟨_, rfl⟩⟩
  simp [posted]
  omega

theorem Ends.slotted (h : Slotted p p') {q : UDQueue Endpoint}
    (hq : Ends p'.1 q) : Slotted p (q, p'.2) := by
  refine ⟨h.balanced.trans hq.balanced, ?_, ?_⟩
  · rw [hq.completes.works, hq.completes.polled]
    exact h.length
  · rw [hq.completes.works]
    exact h.works

theorem Slotted.taken (h : Slotted p p') (hpending : p'.2.pending = 5)
    {q : UDQueue Endpoint} {wc : ℕ × WCStatus} (hpoll : p'.1.poll = (q, some wc)) :
    Slotted p (q, { p'.2 with pending := 0 }) := by
  have hbusy : 0 < p'.2.pending := by omega
  refine ⟨h.balanced.trans ((Awaited.taken (.refl p'.1) hpoll).balanced hbusy), ?_, ?_⟩
  · obtain ⟨rest, -, rfl⟩ := SendQueue.poll_eq_some hpoll
    have hlength := h.length
    rw [hpending] at hlength
    simp only [List.length_append, List.length_singleton]
    omega
  · obtain ⟨rest, -, rfl⟩ := SendQueue.poll_eq_some hpoll
    exact h.works

/-- No poll of the send completion queue fails. -/
def Calm (polls : List CqEvent) : Prop := ∀ e ∈ polls, e.pollError = none

theorem drain_not_err {polls : List CqEvent} (hcalm : Calm polls) (limit : ℕ)
    (p : Port Endpoint) (err : DatapathError) :
    (drain limit p polls).2 ≠ .error (.err err) := by
  have hwait : Waited (fun _ => True) (fun _ r => ∃ wc, r = .ok wc)
      (blockOn UDSession.poll p polls) := by
    apply waited_blockOn_of_mem _ trivial
    intro p e he _
    rw [UDSession.poll, hcalm e he]
    dsimp only
    rcases (p.1.completeAll unreported e.arrivals).poll with ⟨q, _ | wc⟩
    · trivial
    · exact ⟨wc.2, rfl⟩
  unfold drain
  split
  · generalize blockOn UDSession.poll p polls = waited at hwait
    obtain ⟨p', _ | r⟩ := waited
    · simp
    · obtain ⟨wc, rfl⟩ := hwait
      dsimp only
      split <;> simp
  · simp

/-- What a reply does to its session if no poll fails. -/
structure Replied (p p' : Port Endpoint) (waits : Prop) : Prop where
  slotted : Slotted p p'
  grows : p'.2.pending ≤ p.2.pending + 1
  settles : ¬ waits → p'.2.pending ≤ 4

variable {s : Sessions Endpoint} {id : ℕ} {session : UDSession Endpoint} {region : Memory}

theorem replied_drain (h : Slotted p p') (hle : p.2.pending ≤ 4)
    (hgrows : p'.2.pending ≤ p.2.pending + 1) {polls : List CqEvent} (hcalm : Calm polls) :
    Replied p (drain 4 p' polls).1 ((drain 4 p' polls).2 = .error .waiting) := by
  rcases drain_cases 4 p' polls with
    ⟨hfew, hd⟩ | ⟨hmany, q, hq, hd | ⟨err, hd⟩ | ⟨q', wc, hpoll, hd⟩⟩
  · rw [hd]
    exact ⟨h, hgrows, fun _ => hfew⟩
  · rw [hd]
    exact ⟨hq.slotted h, hgrows, fun hwaits => absurd rfl hwaits⟩
  · exact absurd (congrArg Prod.snd hd) (drain_not_err hcalm 4 p' err)
  · rw [hd]
    have hfive : p'.2.pending = 5 := by omega
    have hended : Slotted p (q, p'.2) := hq.slotted h
    exact ⟨hended.taken hfive hpoll, Nat.zero_le _, fun _ => Nat.zero_le _⟩

theorem Sessions.sendReply_replied (h : s.connected.lookup id = some (session, region))
    (hle : session.pending ≤ 4) (reply : ReplyStubFactory) {env : SendEnv}
    (hcalm : Calm env.polls) :
    ∃ p, Replied (s.queue, session) p ((s.sendReply W id reply env).2 = .error .waiting) ∧
      (s.sendReply W id reply env).1 = s.put id p (replyRegion W reply region) := by
  rw [sendReply_of_lookup h]
  dsimp only
  rw [replyOutcome_eq_waiting]
  refine ⟨_, ?_, rfl⟩
  cases hpost : env.postError with
  | none =>
    rw [postReply_of_none hpost]
    exact replied_drain (slotted_posted _ _ _) hle le_rfl hcalm
  | some err =>
    rw [postReply_of_some hpost]
    exact replied_drain (.refl _) hle (Nat.le_succ _) hcalm

/-! ## Where the signaled sends are -/

/-- The `j`-th signaled send is not far in front of place `5 * j`.  This also holds while a
call waits. -/
structure Spaced (s : Sessions Endpoint) : Prop where
  accounted : Accounted ⟨s, []⟩
  length : s.queue.works.length = 5 * s.queue.polled.length + s.pending
  spaced : ∀ j place, (SendQueue.places s.queue.works)[j]? = some place →
    5 * j + 4 ≤ place + 4 * s.count

theorem spaced_new : Spaced (Sessions.new : Sessions Endpoint) := by
  refine ⟨accounted_new, rfl, ?_⟩
  intro j place hplace
  cases hplace

/-- No session has more than four pending sends: the state between two calls. -/
def Settled (s : Sessions Endpoint) : Prop :=
  ∀ id session region, s.connected.lookup id = some (session, region) → session.pending ≤ 4

theorem settled_new : Settled (Sessions.new : Sessions Endpoint) := by
  intro id session region hlookup
  cases hlookup

theorem Settled.put (h : Settled s) {p : Port Endpoint}
    (hp : p.2.pending ≤ 4) (id : ℕ) (region : Memory) : Settled (s.put id p region) := by
  intro id' session region' hlookup
  rcases lookup_insert_cases hlookup with ⟨-, heq⟩ | hlookup
  · cases heq
    exact hp
  · exact h id' session region' hlookup

theorem Settled.pending_le (h : Settled s) :
    s.pending ≤ 4 * s.count := by
  have hmono : s.pending ≤ tally (fun _ => 4) s.connected := by
    apply tally_mono
    intro id entry hlookup
    exact h id entry.1 entry.2 hlookup
  rwa [tally_const, Nat.mul_comm] at hmono

theorem Sessions.count_put
    {entry : UDSession Endpoint × Memory} (h : s.connected.lookup id = some entry)
    (p : Port Endpoint) (region : Memory) : (s.put id p region).count = s.count :=
  length_keys_insert_of_lookup h _

theorem Sessions.count_put_new (h : id ∉ s.connected)
    (p : Port Endpoint) (region : Memory) : (s.put id p region).count = s.count + 1 :=
  length_keys_insert_of_notMem h _

theorem Sessions.pending_put (h : s.connected.lookup id = some (session, region))
    (p : Port Endpoint)
    (region' : Memory) :
    (s.put id p region').pending + session.pending = s.pending + p.2.pending :=
  tally_insert_of_lookup (fun entry => entry.1.pending) h _

theorem Sessions.busy_le (h : s.connected.lookup id = some (session, region))
    (hidle : session.pending = 0) :
    5 * (Link.mk s []).busy + 4 ≤ s.pending + 4 * s.count := by
  have hle := tally_add_le_of_lookup
    (f := fun entry : UDSession Endpoint × Memory => 5 * entry.1.isBusy.toNat)
    (g := fun entry => entry.1.pending + 4) (d := 4)
    (fun entry => by
      cases hpending : entry.1.pending <;> simp [UDSession.isBusy, hpending])
    h (by simp [UDSession.isBusy, hidle])
  rw [tally_mul, tally_add, tally_const, Nat.mul_comm _ 4] at hle
  exact hle

theorem Spaced.put (hs : Spaced s)
    (h : s.connected.lookup id = some (session, region)) {p : Port Endpoint}
    (hp : Slotted (s.queue, session) p) (region' : Memory) : Spaced (s.put id p region') := by
  refine ⟨hs.accounted.put h hp.balanced region', ?_, ?_⟩
  · have hpending := Sessions.pending_put h p region'
    have hbefore := hs.length
    have hlength := hp.length
    dsimp only [Sessions.put] at hpending hlength ⊢
    omega
  · intro j place hplace
    rw [Sessions.count_put h]
    rcases hp.works with hworks | ⟨send, hworks⟩
    · rw [Sessions.put, hworks] at hplace
      exact hs.spaced j place hplace
    · rw [Sessions.put, hworks, SendQueue.places_concat] at hplace
      dsimp only at hplace
      by_cases hidle : session.pending = 0
      · rw [if_pos (by simp [hidle]), List.getElem?_append] at hplace
        split at hplace
        · exact hs.spaced j place hplace
        · next hlast =>
            -- the send that is posted now
            rw [List.getElem?_singleton] at hplace
            split at hplace
            · next hj =>
                cases hplace
                rw [SendQueue.length_places] at hlast hj
                have hbusy := Sessions.busy_le h hidle
                have hcount := hs.accounted.count
                have hlength := hs.length
                dsimp only [signaled] at hcount
                omega
            · cases hplace
      · rw [if_neg (by simp [hidle]), List.append_nil] at hplace
        exact hs.spaced j place hplace

theorem Spaced.put_new (hs : Spaced s) (h : id ∉ s.connected)
    (endpoint : Endpoint) (region : Memory) :
    Spaced (s.put id (s.queue, .create endpoint) region) := by
  refine ⟨hs.accounted.put_new h (.refl (s.queue, .create endpoint)) region, ?_, ?_⟩
  · have hpending : (s.put id (s.queue, .create endpoint) region).pending = s.pending + 0 :=
      tally_insert_of_notMem (fun entry : UDSession Endpoint × Memory => entry.1.pending) h _
    rw [hpending]
    exact hs.length
  · intro j place hplace
    rw [Sessions.count_put_new h]
    exact (hs.spaced j place hplace).trans (by omega)

/-! ## Replies of a hook -/

/-- The state behind a reply: while it waits, its session has a fifth pending send. -/
structure Served (s : Sessions Endpoint) (waits : Prop) : Prop where
  spaced : Spaced s
  pending : s.pending ≤ 4 * s.count + 1
  settled : ¬ waits → Settled s

theorem Settled.served (hs : Settled s) (h : Spaced s) (waits : Prop) :
    Served s waits :=
  ⟨h, hs.pending_le.trans (Nat.le_succ _), fun _ => hs⟩

theorem served_sendReply (hs : Spaced s) (hsettled : Settled s)
    (h : s.connected.lookup id = some (session, region)) (reply : ReplyStubFactory)
    {env : SendEnv} (hcalm : Calm env.polls) :
    Served (s.sendReply W id reply env).1 ((s.sendReply W id reply env).2 = .error .waiting) := by
  obtain ⟨p, hreplied, hput⟩ :=
    Sessions.sendReply_replied (W := W) h (hsettled id session region h) reply hcalm
  rw [hput]
  refine ⟨hs.put h hreplied.slotted _, ?_, ?_⟩
  · have hpending := Sessions.pending_put h p (replyRegion W reply region)
    have hgrows := hreplied.grows
    have hle := hsettled.pending_le
    rw [Sessions.count_put h]
    dsimp only at hgrows
    omega
  · exact fun hwaits => hsettled.put (hreplied.settles hwaits) id _

theorem served_react (hook : RPCHook σ Endpoint) (hs : Spaced hook.sessions)
    (hsettled : Settled hook.sessions) {env : PollEnv Endpoint} (hcalm : Calm env.send.polls)
    (m : Incoming) :
    Served (hook.react W env m).1.sessions ((hook.react W env m).2 = .error .waiting) := by
  have h := RPCHook.reacts W hook env m
  generalize hook.react W env m = r at h
  cases h with
  | rejected h => exact hsettled.served hs _
  | aborted => exact hsettled.served hs _
  | dropped header => exact hsettled.served hs _
  | accepted h =>
    exact served_sendReply (hs.put_new h.absent _ _) (hsettled.put (Nat.zero_le _) _ _)
      (Sessions.lookup_put _ _ _ _) _ hcalm
  | served h input =>
    exact served_sendReply (hs.put h (.refl _) _) (hsettled.put (hsettled _ _ _ h) _ _)
      (Sessions.lookup_put _ _ _ _) _ hcalm

/-! ## Runs of a hook -/

/-- No poll of the send completion queue fails during the step. -/
def CalmStep : HookAction Endpoint → Prop
  | .poll env => Calm env.send.polls
  | .postMsgBuf .. => True

/-- The step is still waiting for a completion. -/
def HookOutput.Waits : HookOutput → Prop
  | .polled _ _ ret => ret = .error .waiting
  | .posted _ => False

theorem served_step {hook : RPCHook σ Endpoint} (hs : Spaced hook.sessions)
    (hsettled : Settled hook.sessions) {a : HookAction Endpoint} (hcalm : CalmStep a) :
    Served ((hookMachine W).step hook a).1.sessions ((hookMachine W).step hook a).2.Waits := by
  cases a with
  | postMsgBuf buf error => exact hsettled.served hs _
  | poll env =>
    dsimp only [hookMachine, HookOutput.Waits]
    cases htaken : UDReceiver.handedOut (hook.transport.poll env.recv).2 with
    | none =>
      rw [(RPCHook.poll_of_not_ready htaken).1]
      exact hsettled.served hs _
    | some msg =>
      obtain ⟨transport, hready⟩ := UDReceiver.ready_of_handedOut htaken
      have h := served_react (W := W) { hook with transport } hs hsettled hcalm
        (decode W msg)
      rw [RPCHook.poll_of_ready hready, RPCHook.finish_sessions]
      exact ⟨h.spaced, h.pending, fun hwaits => h.settled (RPCHook.finish_ne hwaits)⟩

/-- The slots that are taken behind a reply, whether it waits or not. -/
theorem Served.unreclaimed_le {waits : Prop} (h : Served s waits) :
    s.queue.unreclaimed ≤ 8 * s.count + 1 := by
  have hlength := h.spaced.length
  have hpending := h.pending
  rcases s.queue.polled.eq_nil_or_concat with hnil | ⟨polled, c, hconcat⟩
  · rw [hnil, List.length_nil] at hlength
    have hle := s.queue.unreclaimed_le_length
    omega
  · have hle := SendQueue.unreclaimed_le (q := s.queue) (c := c) (by simp [hconcat])
    have hplace : (SendQueue.places s.queue.works)[polled.length]? = some c.1 := by
      apply getElem?_mono h.spaced.accounted.reported.polled_isPrefix
      simp [hconcat]
    have hspaced := h.spaced.spaced _ _ hplace
    have hpolled : s.queue.polled.length = polled.length + 1 := by simp [hconcat]
    omega

/-- A run of polls of which each but the last has returned, with no failing poll of the send
completion queue. -/
structure ReplyRun (W : Wire) (hook : RPCHook σ Endpoint) (as : List (HookAction Endpoint))
    (a : HookAction Endpoint) : Prop where
  returned : (hookMachine W).Always
    (fun hook a => CalmStep a ∧ ¬ ((hookMachine W).step hook a).2.Waits) hook as
  calm : CalmStep a

theorem ReplyRun.unreclaimed_le {service : Service σ} {transport : UDReceiver}
    {as : List (HookAction Endpoint)} {a : HookAction Endpoint}
    (h : ReplyRun W (.new service transport) as a) :
    let after := ((hookMachine W).run (.new service transport) (as ++ [a])).sessions
    after.queue.unreclaimed ≤ 8 * after.count + 1 := by
  intro after
  have hbefore : let s := ((hookMachine W).run (.new service transport) as).sessions
      Spaced s ∧ Settled s := by
    refine Machine.invariant (fun hook : RPCHook σ Endpoint =>
      Spaced hook.sessions ∧ Settled hook.sessions) ?_ ⟨spaced_new, settled_new⟩ h.returned
    intro hook a hs ha
    have hserved := served_step (W := W) hs.1 hs.2 ha.1
    exact ⟨hserved.spaced, hserved.settled ha.2⟩
  have hserved := served_step (W := W) hbefore.1 hbefore.2 h.calm
  rw [← Machine.run_concat] at hserved
  exact hserved.unreclaimed_le

end Mitosis.Datagram
