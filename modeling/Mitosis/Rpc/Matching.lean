import Mitosis.Rpc.Caller

/-!
# Which reply a call accepts

All sessions of a core share one receive queue and a reply does not name its
request, so a call takes the first successful reply for its own.  The results
below say when this is right: in every run whose calls are made while no reply
to an earlier request is outstanding, and in no other reachable state.
-/

namespace Mitosis.Rpc

open Mitosis.OsNetwork
open Mitosis.Support

/-! ## Runs -/

inductive RpcAction where
  | event (e : NetEvent)
  | call (c : RpcCall)
deriving DecidableEq, Repr

/-- A call, the number of requests sent before it, and how it ended. -/
structure CallReport where
  serial : ℕ
  call : RpcCall
  result : CallResult
deriving DecidableEq, Repr

/-- If the call accepted a reply, the hook of its machine produced that reply
for the request of this very call. -/
def CallReport.Own (report : CallReport) : Prop :=
  ∀ m, report.result = .accepted m →
    m.answers.serial = report.serial ∧
    m.answers.machine = report.call.machineId ∧
    m.answers.arg = report.call.handlerId

def rpcMachine (cl : Cluster) : Machine Net RpcAction (Option CallReport) where
  step s
    | .event e => (applyEvent cl s e, none)
    | .call c => ((rpcCall cl s c).1, some ⟨s.sent, c, (rpcCall cl s c).2⟩)

/-- No request is unanswered and no reply is under way or waiting. -/
def Quiet (s : Net) : Prop :=
  s.requests = [] ∧ s.replies = [] ∧ s.receiver.received = []

instance (s : Net) : Decidable (Quiet s) :=
  inferInstanceAs (Decidable (_ ∧ _))

/-- The condition on a step of a run: calls are made only when it is quiet. -/
def CallsQuiet (s : Net) : RpcAction → Prop
  | .event _ => True
  | .call _ => Quiet s

/-! ## What events outside the caller do -/

/-- Every request under way satisfies `P` and every reply `Q`. -/
structure Traffic (P : Request → Prop) (Q : Reply → Prop) (s : Net) : Prop where
  requests : ∀ r ∈ s.requests, P r
  replies : ∀ m ∈ s.replies, Q m
  received : ∀ m ∈ s.receiver.received, Q m

section Events

variable {cl : Cluster} {s : Net} {P : Request → Prop} {Q : Reply → Prop}

theorem UDReceiver.mem_arrive {recv : UDReceiver} {m m' : Reply}
    (h : m' ∈ (recv.arrive m).received) : m' ∈ recv.received ∨ m' = m := by
  unfold UDReceiver.arrive at h
  split at h
  · simpa using h
  · exact Or.inl h

theorem UDReceiver.arrive_msgQueues (recv : UDReceiver) (m : Reply) :
    (recv.arrive m).msgQueues = recv.msgQueues := by
  unfold UDReceiver.arrive
  split
  · rfl
  · rfl

theorem Traffic.applyEvent (hclose : ∀ r m, P r → (cl.hook r.machine).handle r = some m → Q m)
    (h : Traffic P Q s) (e : NetEvent) : Traffic P Q (applyEvent cl s e) := by
  cases e with
  | handle i sends =>
    cases hi : s.requests[i]? with
    | none => simpa only [Rpc.applyEvent, hi] using h
    | some r =>
      have hr : P r := h.requests r (List.mem_of_getElem? hi)
      simp only [Rpc.applyEvent, hi]
      refine ⟨fun r' hr' => h.requests r' (List.mem_of_mem_eraseIdx hr'), ?_, h.received⟩
      intro m hm
      cases sends with
      | false => exact h.replies m (by simpa using hm)
      | true =>
        simp only [if_true, List.mem_append, Option.mem_toList] at hm
        rcases hm with hm | hm
        · exact h.replies m hm
        · exact hclose r m hr hm
  | deliver i =>
    cases hi : s.replies[i]? with
    | none => simpa only [Rpc.applyEvent, hi] using h
    | some m =>
      simp only [Rpc.applyEvent, hi]
      refine ⟨h.requests, fun m' hm' => h.replies m' (List.mem_of_mem_eraseIdx hm'), ?_⟩
      intro m' hm'
      rcases UDReceiver.mem_arrive hm' with hm' | rfl
      · exact h.received m' hm'
      · exact h.replies _ (List.mem_of_getElem? hi)
  | sendDone status => exact ⟨h.requests, h.replies, h.received⟩

theorem Traffic.applyEvents (hclose : ∀ r m, P r → (cl.hook r.machine).handle r = some m → Q m)
    (h : Traffic P Q s) (es : List NetEvent) : Traffic P Q (applyEvents cl s es) := by
  induction es generalizing s with
  | nil => exact h
  | cons e es ih => exact ih (h.applyEvent hclose e)

/-- The part of the caller that events outside it cannot change. -/
structure SameCaller (s t : Net) : Prop where
  sent : t.sent = s.sent
  pending : t.pending = s.pending
  bufs : t.receiver.msgQueues = s.receiver.msgQueues
  sends : t.sendCq.outstanding = s.sendCq.outstanding

theorem sameCaller_applyEvent (e : NetEvent) : SameCaller s (applyEvent cl s e) := by
  cases e with
  | handle i sends =>
    unfold applyEvent
    dsimp only
    split
    · exact ⟨rfl, rfl, rfl, rfl⟩
    · exact ⟨rfl, rfl, rfl, rfl⟩
  | deliver i =>
    unfold applyEvent
    dsimp only
    split
    · exact ⟨rfl, rfl, rfl, rfl⟩
    · exact ⟨rfl, rfl, UDReceiver.arrive_msgQueues _ _, rfl⟩
  | sendDone status => exact ⟨rfl, rfl, rfl, CompletionQueue.outstanding_complete _ _⟩

theorem sameCaller_applyEvents (es : List NetEvent) :
    SameCaller s (applyEvents cl s es) := by
  induction es generalizing s with
  | nil => exact ⟨rfl, rfl, rfl, rfl⟩
  | cons e es ih =>
    have hfirst : SameCaller s (applyEvent cl s e) := sameCaller_applyEvent e
    have hrest : SameCaller (applyEvent cl s e)
        (applyEvents cl (applyEvent cl s e) es) := ih
    exact ⟨hrest.sent.trans hfirst.sent, hrest.pending.trans hfirst.pending,
      hrest.bufs.trans hfirst.bufs, hrest.sends.trans hfirst.sends⟩

end Events

/-! ## What the polls and the calls do -/

section Calls

variable {cl : Cluster} {s : Net}

theorem UDReceiver.pop_of_nil {recv : UDReceiver} (h : recv.received = []) :
    recv.pop = (recv, none) := by
  unfold UDReceiver.pop
  split
  · rfl
  · next heq =>
      rw [h] at heq
      cases heq

theorem UDReceiver.pop_of_cons {recv : UDReceiver} {m : Reply} {rest : List Reply}
    (h : recv.received = m :: rest) :
    ∃ recv', recv.pop = (recv', some m) ∧ recv'.received = rest ∧
      recv'.msgQueues = recv.msgQueues - 1 := by
  unfold UDReceiver.pop
  split
  · next heq =>
      rw [h] at heq
      cases heq
  · next heq =>
      rw [h] at heq
      cases heq
      exact ⟨_, rfl, rfl, rfl⟩

theorem UDSession.polled {I : Net → Prop} {Q : Net → Except DatapathError WCStatus → Prop}
    {sid : ℕ} {e : WaitEvent} (hwait : I (applyEvents cl s e.events))
    (hfail : ∀ err, Q (applyEvents cl s e.events) (.error err))
    (hready : ∀ cq wc, (applyEvents cl s e.events).sendCq.poll = (cq, some wc) →
      Q { applyEvents cl s e.events with
          sendCq := cq
          pending := Function.update (applyEvents cl s e.events).pending sid 0 }
        (.ok wc.2)) :
    Polled I Q (UDSession.poll cl sid s e) := by
  unfold UDSession.poll
  cases e.pollError with
  | some err => exact hfail err
  | none =>
    dsimp only
    rcases hp : (applyEvents cl s e.events).sendCq.poll with ⟨cq, _ | wc⟩
    · exact hwait
    · exact hready cq wc hp

theorem Caller.polled {I : Net → Prop} {Q : Net → Except CallError Reply → Prop}
    {e : WaitEvent} (hwait : I (applyEvents cl s e.events))
    (hfail : ∀ err, Q (applyEvents cl s e.events) (.error err))
    (hready : ∀ m recv,
      (applyEvents cl s e.events).receiver.received = m :: recv.received →
      recv.msgQueues = (applyEvents cl s e.events).receiver.msgQueues - 1 →
      Q { applyEvents cl s e.events with receiver := recv } (Caller.checkReply m)) :
    Polled I Q (Caller.poll cl s e) := by
  unfold Caller.poll UDReceiver.poll
  cases e.pollError with
  | some err => exact hfail _
  | none =>
    cases hr : (applyEvents cl s e.events).receiver.received with
    | nil =>
      simp only [UDReceiver.pop_of_nil hr]
      exact hwait
    | cons m rest =>
      obtain ⟨recv, hpop, hrest, hbufs⟩ := UDReceiver.pop_of_cons hr
      have h := hready m recv (by rw [hr, hrest]) hbufs
      simp only [hpop]
      cases hc : Caller.checkReply m with
      | ok m' =>
        rw [hc] at h
        exact h
      | error err =>
        rw [hc] at h
        exact h

theorem Caller.syncCall_rule {I J : Net → Prop} {sid mySid : ℕ} {rpcId : RPCId} {arg : ℕ}
    {postError : Option DatapathError} {sendPolls : List WaitEvent} {s' : Net}
    {r : Caller.SyncResult}
    (hpost : sid ∈ cl.sessions → I (Caller.post cl s sid mySid rpcId arg))
    (hsend : ∀ s e, I s → Polled I (fun s _ => J s) (UDSession.poll cl sid s e))
    (hIJ : ∀ s, I s → J s)
    (hr : Caller.syncCall cl s sid mySid rpcId arg postError sendPolls = (s', r)) :
    (s' = s ∧ r ≠ .sent) ∨ J s' := by
  unfold Caller.syncCall at hr
  by_cases hsid : sid ∈ cl.sessions
  · rw [if_pos hsid] at hr
    cases postError with
    | some err =>
      cases hr
      exact Or.inl ⟨rfl, by simp⟩
    | none =>
      have hwait := (waited_blockOn hsend sendPolls (hpost hsid)).state hIJ
      dsimp only at hr
      split at hr
      · rcases hb : blockOn (UDSession.poll cl sid)
          (Caller.post cl s sid mySid rpcId arg) sendPolls with ⟨t, _ | (err | wc)⟩
        all_goals
          rw [hb] at hwait hr
          dsimp only at hr
        · cases hr
          exact Or.inr hwait
        · cases hr
          exact Or.inr hwait
        · split at hr
          · cases hr
            exact Or.inr hwait
          · cases hr
            exact Or.inr hwait
      · cases hr
        exact Or.inr (hIJ _ (hpost hsid))
  · rw [if_neg hsid] at hr
    cases hr
    exact Or.inl ⟨rfl, by simp⟩

/-- The same for a whole system call: `Q` is what the poll that accepts a reply
establishes, before the buffer of the reply is registered again. -/
theorem rpcCall_rule {I J : Net → Prop} {Q : Net → Reply → Prop} {call : RpcCall}
    {s' : Net} {r : CallResult}
    (hpost : cl.remoteSessionId call.machineId ∈ cl.sessions →
      I (Caller.post cl s (cl.remoteSessionId call.machineId) cl.mySessionId
        call.rpcId call.handlerId))
    (hsend : ∀ s e, I s → Polled I (fun s _ => J s)
      (UDSession.poll cl (cl.remoteSessionId call.machineId) s e))
    (hIJ : ∀ s, I s → J s)
    (hpoll : ∀ s e, J s → Polled J
      (fun s r => match r with | .ok m => Q s m | .error _ => J s)
      (Caller.poll cl s e))
    (hr : rpcCall cl s call = (s', r)) :
    match r with
    | .accepted m => ∃ t, s' = { t with receiver := t.receiver.postRecvBuf } ∧ Q t m
    | _ => s' = s ∨ J s' := by
  unfold rpcCall at hr
  rcases hs : Caller.syncCall cl s (cl.remoteSessionId call.machineId) cl.mySessionId
    call.rpcId call.handlerId call.postError call.sendPolls with ⟨t, sent | err | _ | _⟩
  all_goals
    have hsync := Caller.syncCall_rule hpost hsend hIJ hs
    rw [hs] at hr
    dsimp only at hr
  case sent =>
    have ht : J t := hsync.resolve_left fun h => h.2 rfl
    have hwait : Waited J
        (fun s r => match r with | .ok m => Q s m | .error _ => J s)
        (blockOn (Timeout.poll (Caller.poll cl) replyTimeoutUsec) t call.polls) :=
      waited_blockOn
        (fun s e hs => polled_timeout (hpoll s e.1 hs) (fun _ _ h => h) (fun _ _ h => h)
          fun _ h => h)
        call.polls ht
    rcases hb : blockOn (Timeout.poll (Caller.poll cl) replyTimeoutUsec) t call.polls
      with ⟨u, _ | (err | m)⟩
    all_goals
      rw [hb] at hwait hr
      cases hr
    · exact Or.inr hwait
    · exact Or.inr hwait
    · exact ⟨u, rfl, hwait⟩
  all_goals
    cases hr
    exact hsync.imp_left And.left

end Calls

/-! ## Calls with nothing outstanding -/

section Quiet

variable {cl : Cluster} {s : Net}

theorem RPCHook.answers_of_handle {hook : RPCHook} {r : Request} {m : Reply}
    (h : hook.handle r = some m) : m.answers = r := by
  unfold RPCHook.handle at h
  split at h
  · split at h
    · split at h
      · cases h
        rfl
      · cases h
        rfl
    · cases h
  · cases h

theorem Caller.eq_of_checkReply {m m' : Reply} (h : Caller.checkReply m = .ok m') :
    m' = m := by
  unfold Caller.checkReply at h
  split at h
  · split at h
    · cases h
      rfl
    · cases h
    · cases h
  · cases h

theorem Traffic.post {P : Request → Prop} {Q : Reply → Prop} {sid mySid : ℕ}
    {rpcId : RPCId} {arg : ℕ} (h : Traffic P Q s)
    (hown : P (Caller.request cl s sid mySid rpcId arg)) :
    Traffic P Q (Caller.post cl s sid mySid rpcId arg) := by
  refine ⟨fun r hr => ?_, h.replies, h.received⟩
  rcases List.mem_append.mp hr with hr | hr
  · exact h.requests r hr
  · rw [List.mem_singleton.mp hr]
    exact hown

theorem Cluster.endpoint_remoteSessionId {machineId : ℕ}
    (h : cl.remoteSessionId machineId ∈ cl.sessions) :
    cl.endpoint (cl.remoteSessionId machineId) = machineId := by
  have hkey := cl.keyed _ h
  unfold Cluster.remoteSessionId calculateSessionId at hkey
  have hpos : 0 < cl.maxCallerNum := lt_of_le_of_lt (Nat.zero_le _) cl.cpuId_lt
  exact (Nat.eq_of_mul_eq_mul_right hpos (Nat.add_right_cancel hkey)).symm

/-- Made in a quiet state, a call accepts only the reply to its own request:
no other request is there to be answered. -/
theorem own_of_quiet (h : Quiet s) (call : RpcCall) :
    CallReport.Own ⟨s.sent, call, (rpcCall cl s call).2⟩ := by
  obtain ⟨hrequests, hreplies, hreceived⟩ := h
  let sid := cl.remoteSessionId call.machineId
  let own := Caller.request cl s sid cl.mySessionId call.rpcId call.handlerId
  have hclose : ∀ r m, r = own → (cl.hook r.machine).handle r = some m →
      m.answers = own := by
    rintro r m rfl hm
    exact RPCHook.answers_of_handle hm
  have hempty : Traffic (· = own) (·.answers = own) s :=
    ⟨by simp [hrequests], by simp [hreplies], by simp [hreceived]⟩
  intro m hm
  have hrule := rpcCall_rule
    (I := fun s => sid ∈ cl.sessions ∧ Traffic (· = own) (·.answers = own) s)
    (Q := fun _ m => sid ∈ cl.sessions ∧ m.answers = own)
    (fun hsid => ⟨hsid, hempty.post rfl⟩)
    (fun t e ht => ?_) (fun _ h => h) (fun t e ht => ?_)
    (Prod.ext rfl hm : rpcCall cl s call = ((rpcCall cl s call).1, .accepted m))
  · obtain ⟨-, -, hsid, hanswers⟩ := hrule
    rw [hanswers]
    exact ⟨rfl, Cluster.endpoint_remoteSessionId hsid, rfl⟩
  · have htraffic := ht.2.applyEvents hclose e.events
    exact UDSession.polled ⟨ht.1, htraffic⟩ (fun _ => ⟨ht.1, htraffic⟩) fun _ _ _ =>
      ⟨ht.1, htraffic.requests, htraffic.replies, htraffic.received⟩
  · have htraffic := ht.2.applyEvents hclose e.events
    refine Caller.polled ⟨ht.1, htraffic⟩ (fun _ => ⟨ht.1, htraffic⟩) ?_
    intro m recv hreceived _
    have hfirst : m.answers = own := htraffic.received m (by simp [hreceived])
    cases hc : Caller.checkReply m with
    | ok m' =>
      rw [Caller.eq_of_checkReply hc]
      exact ⟨ht.1, hfirst⟩
    | error err =>
      exact ⟨ht.1, htraffic.requests, htraffic.replies,
        fun m' hm' => htraffic.received m' (by rw [hreceived]; exact List.mem_cons_of_mem _ hm')⟩

end Quiet

/-! ## What holds in every state of a run -/

/-- A request that this caller sent as one of its first `n`. -/
structure Sent (cl : Cluster) (n : ℕ) (r : Request) : Prop where
  serial : r.serial < n
  machine : ∃ sid ∈ cl.sessions, r.machine = cl.endpoint sid
  header : ∃ rpcId : RPCId, r.header = .genCallStub cl.mySessionId rpcId.toNat 8

/-- A successful reply to such a request. -/
structure OkReply (cl : Cluster) (n : ℕ) (m : Reply) : Prop where
  header : m.header = .genReplyStub .ok m.body.length
  answers : Sent cl n m.answers

/-- The sessions that wait for a send completion. -/
def busySessions (cl : Cluster) (pending : ℕ → ℕ) : Finset ℕ :=
  cl.sessions.filter fun sid => 0 < pending sid

/-- Only successful replies to sent requests are under way, no receive buffer is
lost, and there is one outstanding signaled send for each busy session. -/
structure Net.Inv (cl : Cluster) (s : Net) : Prop where
  traffic : Traffic (Sent cl s.sent) (OkReply cl s.sent) s
  bufs : s.receiver.msgQueues = 64
  sends : s.sendCq.outstanding.length = (busySessions cl s.pending).card

section Invariant

variable {cl : Cluster} {s : Net}

variable {sid n : ℕ} {pending : ℕ → ℕ}

theorem Sent.mono {n n' : ℕ} {r : Request} (h : Sent cl n r) (hn : n ≤ n') :
    Sent cl n' r :=
  ⟨h.serial.trans_le hn, h.machine, h.header⟩

theorem Sent.handle {r : Request} (h : Sent cl n r) :
    ∃ m, (cl.hook r.machine).handle r = some m ∧ OkReply cl n m := by
  obtain ⟨sid, hsid, hmachine⟩ := h.machine
  obtain ⟨rpcId, hheader⟩ := h.header
  have hconnected : (cl.hook r.machine).connected cl.mySessionId = true := by
    rw [hmachine]
    exact cl.connects sid hsid
  have hexec : ∃ body, (cl.hook r.machine).execute rpcId.toNat r.arg = some body := by
    cases rpcId <;> exact ⟨_, rfl⟩
  obtain ⟨body, hbody⟩ := hexec
  refine ⟨⟨.genReplyStub .ok body.length, body, r⟩, ?_, rfl, h⟩
  simp [RPCHook.handle, hheader, MsgHeader.genCallStub, MsgHeader.getCallStub,
    hconnected, hbody]

theorem OkReply.checkReply {m : Reply} (h : OkReply cl n m) :
    Caller.checkReply m = .ok m := by
  simp [Caller.checkReply, h.header, MsgHeader.genReplyStub, MsgHeader.isReply,
    MsgHeader.getReplyStub]

theorem okReply_of_handle (r : Request) (m : Reply) (hr : Sent cl n r)
    (hm : (cl.hook r.machine).handle r = some m) : OkReply cl n m := by
  obtain ⟨m', hm', hok⟩ := hr.handle
  rw [hm] at hm'
  cases hm'
  exact hok

theorem card_busySessions_first (hsid : sid ∈ cl.sessions)
    (h : pending sid = 0) (k : ℕ) :
    (busySessions cl (Function.update pending sid (k + 1))).card =
      (busySessions cl pending).card + 1 := by
  have hinsert : busySessions cl (Function.update pending sid (k + 1)) =
      insert sid (busySessions cl pending) := by
    ext t
    by_cases ht : t = sid
    · subst ht
      simp [busySessions, hsid]
    · simp [busySessions, ht]
  rw [hinsert, Finset.card_insert_of_notMem (by simp [busySessions, h])]

theorem busySessions_more (h : 0 < pending sid) (k : ℕ) :
    busySessions cl (Function.update pending sid (k + 1)) = busySessions cl pending := by
  ext t
  by_cases ht : t = sid
  · subst ht
    simp [busySessions, h]
  · simp [busySessions, ht]

theorem card_busySessions_done (hsid : sid ∈ cl.sessions)
    (h : 0 < pending sid) :
    (busySessions cl (Function.update pending sid 0)).card + 1 =
      (busySessions cl pending).card := by
  have herase : busySessions cl (Function.update pending sid 0) =
      (busySessions cl pending).erase sid := by
    ext t
    by_cases ht : t = sid
    · subst ht
      simp [busySessions]
    · simp [busySessions, ht]
  rw [herase]
  exact Finset.card_erase_add_one (by simp [busySessions, hsid, h])

theorem Net.Inv.applyEvents (h : s.Inv cl) (es : List NetEvent) :
    (applyEvents cl s es).Inv cl := by
  have hsame : SameCaller s (Rpc.applyEvents cl s es) := sameCaller_applyEvents es
  refine ⟨?_, hsame.bufs.trans h.bufs, ?_⟩
  · rw [hsame.sent]
    exact h.traffic.applyEvents okReply_of_handle es
  · rw [hsame.sends, hsame.pending]
    exact h.sends

theorem Net.inv_new : Net.new.Inv cl := by
  refine ⟨⟨by simp [Net.new], by simp [Net.new], by simp [Net.new]⟩, rfl, ?_⟩
  simp [Net.new, busySessions]

theorem Net.Inv.post (h : s.Inv cl) (hsid : sid ∈ cl.sessions)
    (rpcId : RPCId) (arg : ℕ) :
    (Caller.post cl s sid cl.mySessionId rpcId arg).Inv cl := by
  have hle : s.sent ≤ s.sent + 1 := Nat.le_succ _
  refine ⟨?_, h.bufs, ?_⟩
  · have hmono : Traffic (Sent cl (s.sent + 1)) (OkReply cl (s.sent + 1)) s :=
      ⟨fun r hr => (h.traffic.requests r hr).mono hle,
        fun m hm => ⟨(h.traffic.replies m hm).header, (h.traffic.replies m hm).answers.mono hle⟩,
        fun m hm => ⟨(h.traffic.received m hm).header, (h.traffic.received m hm).answers.mono hle⟩⟩
    exact hmono.post ⟨Nat.lt_succ_self _, ⟨sid, hsid, rfl⟩, ⟨rpcId, rfl⟩⟩
  · unfold Caller.post
    by_cases hidle : s.pending sid = 0
    · simp only [hidle, if_true]
      rw [CompletionQueue.outstanding_post, List.length_append, List.length_singleton,
        h.sends, card_busySessions_first hsid hidle]
    · simp only [hidle, if_false]
      rw [busySessions_more (Nat.pos_of_ne_zero hidle), h.sends]

/-- Waiting for a send completion on a busy session. -/
structure Net.Sending (cl : Cluster) (sid : ℕ) (s : Net) : Prop where
  inv : s.Inv cl
  session : sid ∈ cl.sessions
  busy : 0 < s.pending sid

theorem Net.Sending.polled (h : s.Sending cl sid) (e : WaitEvent) :
    Polled (Net.Sending cl sid) (fun t _ => t.Inv cl) (UDSession.poll cl sid s e) := by
  have hevents := h.inv.applyEvents e.events
  have hsame : SameCaller s (Rpc.applyEvents cl s e.events) := sameCaller_applyEvents _
  have hbusy : 0 < (Rpc.applyEvents cl s e.events).pending sid := by
    rw [hsame.pending]
    exact h.busy
  refine UDSession.polled ⟨hevents, h.session, hbusy⟩ (fun _ => hevents) ?_
  intro cq wc hpoll
  refine ⟨⟨hevents.traffic.requests, hevents.traffic.replies, hevents.traffic.received⟩,
    hevents.bufs, ?_⟩
  have hcount := hevents.sends
  rw [CompletionQueue.outstanding_of_poll hpoll, List.length_cons,
    ← card_busySessions_done h.session hbusy] at hcount
  exact Nat.add_right_cancel hcount

theorem Net.Inv.replyPolled (h : s.Inv cl) (e : WaitEvent) :
    Polled (Net.Inv cl)
      (fun t r => match r with
        | .ok _ => Net.Inv cl { t with receiver := t.receiver.postRecvBuf }
        | .error _ => t.Inv cl)
      (Caller.poll cl s e) := by
  have hevents := h.applyEvents e.events
  refine Caller.polled hevents (fun _ => hevents) ?_
  intro m recv hreceived hbufs
  have hok : OkReply cl _ m := hevents.traffic.received m (by simp [hreceived])
  rw [hok.checkReply]
  refine ⟨⟨hevents.traffic.requests, hevents.traffic.replies, ?_⟩, ?_, hevents.sends⟩
  · intro m' hm'
    exact hevents.traffic.received m' (by rw [hreceived]; exact List.mem_cons_of_mem _ hm')
  · simp [UDReceiver.postRecvBuf, hbufs, hevents.bufs]

theorem Net.Inv.sending (h : s.Inv cl) (hsid : sid ∈ cl.sessions)
    (rpcId : RPCId) (arg : ℕ) :
    (Caller.post cl s sid cl.mySessionId rpcId arg).Sending cl sid :=
  ⟨h.post hsid rpcId arg, hsid, by simp [Caller.post]⟩

theorem Net.Inv.rpcCall (h : s.Inv cl) (call : RpcCall) :
    (rpcCall cl s call).1.Inv cl := by
  rcases hr : Rpc.rpcCall cl s call with ⟨s', r⟩
  have hrule := rpcCall_rule
    (Q := fun t _ => Net.Inv cl { t with receiver := t.receiver.postRecvBuf })
    (fun hsid => h.sending hsid _ _) (fun t e ht => ht.polled e)
    (fun _ ht => ht.inv) (fun t e ht => ht.replyPolled e) hr
  cases r with
  | accepted m =>
    obtain ⟨t, rfl, ht⟩ := hrule
    exact ht
  | failed => exact hrule.elim (fun heq => heq ▸ h) id
  | waiting => exact hrule.elim (fun heq => heq ▸ h) id
  | panicked => exact hrule.elim (fun heq => heq ▸ h) id

theorem inv_run (actions : List RpcAction) :
    ((rpcMachine cl).run Net.new actions).Inv cl := by
  have hstep : ∀ s a, Net.Inv cl s → True → Net.Inv cl ((rpcMachine cl).step s a).1 := by
    intro s a hs _
    cases a with
    | event e => exact hs.applyEvents [e]
    | call c => exact hs.rpcCall c
  exact Machine.invariant (fun s : Net => s.Inv cl) hstep Net.inv_new
    (Machine.always_of_forall (fun _ _ => trivial) _ actions)

end Invariant

/-! ## Calls with something outstanding -/

section Stale

variable {cl : Cluster} {s : Net}

/-- The request whose reply can come first: one that was received, one under
way, or the reply to a request that is not handled yet. -/
def oldest (s : Net) : Option Request :=
  (s.receiver.received.head?.map Reply.answers).or
    ((s.replies.head?.map Reply.answers).or s.requests.head?)

theorem exists_oldest {P : Request → Prop} (h : ¬ Quiet s)
    (htraffic : Traffic P (fun m => P m.answers) s) : ∃ r, oldest s = some r ∧ P r := by
  unfold oldest
  cases hreceived : s.receiver.received with
  | cons m rest => exact ⟨m.answers, rfl, htraffic.received m (by simp [hreceived])⟩
  | nil =>
    cases hreplies : s.replies with
    | cons m rest => exact ⟨m.answers, rfl, htraffic.replies m (by simp [hreplies])⟩
    | nil =>
      cases hrequests : s.requests with
      | cons r rest => exact ⟨r, rfl, htraffic.requests r (by simp [hrequests])⟩
      | nil => exact absurd ⟨hrequests, hreplies, hreceived⟩ h

theorem exists_events_oldest (h : s.Inv cl) {r : Request} (hr : oldest s = some r) :
    ∃ es m rest, (applyEvents cl s es).receiver.received = m :: rest ∧
      m.answers = r ∧ Caller.checkReply m = .ok m := by
  unfold oldest at hr
  have hroom : (0 : ℕ) < s.receiver.msgQueues := by simp [h.bufs]
  cases hreceived : s.receiver.received with
  | cons m rest =>
    have hok := h.traffic.received m (by simp [hreceived])
    refine ⟨[], m, rest, hreceived, ?_, hok.checkReply⟩
    simpa [hreceived] using hr
  | nil =>
    cases hreplies : s.replies with
    | cons m rest =>
      have hok := h.traffic.replies m (by simp [hreplies])
      refine ⟨[.deliver 0], m, [], ?_, ?_, hok.checkReply⟩
      · simp [applyEvents, applyEvent, hreplies, UDReceiver.arrive, hreceived, hroom]
      · simpa [hreceived, hreplies] using hr
    | nil =>
      cases hrequests : s.requests with
      | nil => simp [hreceived, hreplies, hrequests] at hr
      | cons r' rest =>
        obtain ⟨m, hm, hok⟩ := (h.traffic.requests r' (by simp [hrequests])).handle
        refine ⟨[.handle 0 true, .deliver 0], m, [], ?_, ?_, hok.checkReply⟩
        · simp [applyEvents, applyEvent, hrequests, hm, hreplies, UDReceiver.arrive,
            hreceived, hroom]
        · rw [RPCHook.answers_of_handle hm]
          simpa [hreceived, hreplies, hrequests] using hr

theorem exists_syncCall_sent (h : s.Inv cl) {sid : ℕ} (hsid : sid ∈ cl.sessions)
    (rpcId : RPCId) (arg : ℕ) :
    ∃ sendPolls t, Caller.syncCall cl s sid cl.mySessionId rpcId arg none sendPolls =
        (t, .sent) ∧ t.receiver = s.receiver ∧ t.replies = s.replies ∧
      t.requests = s.requests ++ [Caller.request cl s sid cl.mySessionId rpcId arg] := by
  have hsending := h.sending hsid rpcId arg
  generalize hp : Caller.post cl s sid cl.mySessionId rpcId arg = p at hsending
  have hfields : p.receiver = s.receiver ∧ p.replies = s.replies ∧
      p.requests = s.requests ++ [Caller.request cl s sid cl.mySessionId rpcId arg] := by
    subst hp
    exact ⟨rfl, rfl, rfl⟩
  by_cases hmany : p.pending sid > 8
  · have hne : p.sendCq.outstanding ≠ [] := by
      rw [← List.length_pos_iff, hsending.inv.sends, Finset.card_pos]
      exact ⟨sid, by simp [busySessions, hsid, hsending.busy]⟩
    obtain ⟨cq, wc, hpoll⟩ := CompletionQueue.exists_poll_complete hne .success
    refine ⟨[⟨[.sendDone .success], none⟩],
      { p with sendCq := cq, pending := Function.update p.pending sid 0 }, ?_, hfields⟩
    simp [Caller.syncCall, hsid, hp, hmany, blockOn, UDSession.poll, applyEvents,
      applyEvent, hpoll]
  · exact ⟨[], p, by simp [Caller.syncCall, hsid, hp, hmany], hfields⟩

/-- In a state that is not quiet, some schedule makes the next call accept the
reply to an earlier request. -/
theorem exists_stale_call (h : s.Inv cl) (hquiet : ¬ Quiet s) :
    ∃ call m, (rpcCall cl s call).2 = .accepted m ∧ m.answers.serial < s.sent := by
  have htraffic : Traffic (Sent cl s.sent) (fun m => Sent cl s.sent m.answers) s :=
    ⟨h.traffic.requests, fun m hm => (h.traffic.replies m hm).answers,
      fun m hm => (h.traffic.received m hm).answers⟩
  obtain ⟨r, hr, hsent⟩ := exists_oldest hquiet htraffic
  obtain ⟨sid, hsid, -⟩ := hsent.machine
  -- send one more request on that session; what was first stays first
  obtain ⟨sendPolls, t, ht, hreceiver, hreplies, hrequests⟩ :=
    exists_syncCall_sent h hsid .nil 0
  have hsid' : cl.remoteSessionId (cl.endpoint sid) = sid := (cl.keyed sid hsid).symm
  have hinv : t.Inv cl := by
    have hsync := Caller.syncCall_rule (fun hsid => h.sending hsid .nil 0)
      (fun t e ht => ht.polled e) (fun _ ht => ht.inv) ht
    exact hsync.resolve_left fun h => h.2 rfl
  have holdest : oldest t = some r := by
    unfold oldest at hr ⊢
    rw [← Option.or_assoc] at hr
    rw [hreceiver, hreplies, hrequests, List.head?_append, ← Option.or_assoc,
      ← Option.or_assoc, hr, Option.some_or]
  obtain ⟨es, m, rest, hfirst, hanswers, hcheck⟩ := exists_events_oldest hinv holdest
  obtain ⟨recv, hpop, -, -⟩ := UDReceiver.pop_of_cons hfirst
  refine ⟨⟨.nil, cl.endpoint sid, 0, none, sendPolls, [(⟨es, none⟩, 0)]⟩, m, ?_, ?_⟩
  · simp [rpcCall, hsid', ht, blockOn, Timeout.poll, Caller.poll, UDReceiver.poll, hpop,
      hcheck, Except.map]
  · rw [hanswers]
    exact hsent.serial

end Stale

/-! ## Main result -/

theorem own_outputs {cl : Cluster} {s : Net} {actions : List RpcAction}
    (h : (rpcMachine cl).Always CallsQuiet s actions) :
    ∀ report, some report ∈ (rpcMachine cl).outputs s actions → report.Own := by
  intro report hmem
  refine Machine.outputs_of_invariant (fun _ => True)
    (fun o => ∀ report, o = some report → report.Own) ?_ trivial h _ hmem report rfl
  intro s a _ ha
  refine ⟨trivial, ?_⟩
  cases a with
  | event e => simp [rpcMachine]
  | call c =>
    rintro report ⟨⟩
    exact own_of_quiet ha c

/-- A resume or nil call accepts only the reply to its own request in every run
whose calls are made while no earlier request or reply is outstanding; and in
any other reachable state some schedule makes the next call accept the reply
to an earlier request. -/
theorem accepted_own_iff_quiet (cl : Cluster) :
    (∀ actions, (rpcMachine cl).Always CallsQuiet Net.new actions →
      ∀ report, some report ∈ (rpcMachine cl).outputs Net.new actions →
        report.Own) ∧
    ∀ actions, (∀ call report,
        ((rpcMachine cl).step ((rpcMachine cl).run Net.new actions) (.call call)).2 =
          some report → report.Own) ↔
      Quiet ((rpcMachine cl).run Net.new actions) := by
  refine ⟨fun _ h => own_outputs h, fun actions => ⟨fun h => ?_, fun h => ?_⟩⟩
  · by_contra hquiet
    obtain ⟨call, m, hm, hserial⟩ := exists_stale_call (inv_run actions) hquiet
    have hown := (h call _ rfl m hm).1
    exact absurd hserial (by rw [hown]; exact lt_irrefl _)
  · rintro call report hreport
    cases hreport
    exact own_of_quiet h call

/-- Two connected machines; the reply to a query names machine and handler. -/
def twoMachines : Cluster where
  macId := 0
  cpuId := 0
  maxCallerNum := 1
  cpuId_lt := Nat.one_pos
  sessions := {1, 2}
  endpoint sid := sid
  hook m := ⟨fun _ => true, [], fun key => some [UInt8.ofNat m, UInt8.ofNat key]⟩
  keyed := by simp [calculateSessionId]
  connects := by simp

/-- A query of a handler on a machine, with the events before each poll. -/
def query (machineId handlerId : ℕ) (polls : List (WaitEvent × ℤ)) : RpcCall where
  rpcId := .query
  machineId := machineId
  handlerId := handlerId
  postError := none
  sendPolls := []
  polls := polls

/-- The request with a serial for a handler of one of the two machines. -/
def queryRequest (serial machineId handlerId : ℕ) : Request :=
  ⟨serial, machineId, .genCallStub 0 3 8, handlerId⟩

/-- The reply of a machine to such a request. -/
def queryReply (serial machineId handlerId : ℕ) : Reply :=
  ⟨.genReplyStub .ok 2, [UInt8.ofNat machineId, UInt8.ofNat handlerId],
    queryRequest serial machineId handlerId⟩

/-- Two calls whose replies arrive in time. -/
theorem accepted_own_iff_quiet_twice :
    let first := query 1 7 [(⟨[], none⟩, 5), (⟨[.handle 0 true, .deliver 0], none⟩, 9)]
    let second := query 2 9 [(⟨[.handle 0 true, .deliver 0], none⟩, 5)]
    (rpcMachine twoMachines).outputs Net.new [.call first, .call second] =
      [some ⟨0, first, .accepted (queryReply 0 1 7)⟩,
        some ⟨1, second, .accepted (queryReply 1 2 9)⟩] ∧
    ∀ report, some report ∈
        (rpcMachine twoMachines).outputs Net.new [.call first, .call second] →
      report.Own := by
  refine ⟨by decide +kernel, ?_⟩
  exact (accepted_own_iff_quiet twoMachines).1 _
    ⟨(by decide +kernel : Quiet _), (by decide +kernel : Quiet _), trivial⟩

/-- The first call gives up after ten seconds; its late reply then answers the
query of another handler on another machine. -/
theorem late_reply_answers_other_machine :
    let first := query 1 7 [(⟨[], none⟩, 10000000)]
    let second := query 2 9 [(⟨[.handle 0 true, .deliver 0], none⟩, 5)]
    let stale : CallReport := ⟨1, second, .accepted (queryReply 0 1 7)⟩
    (rpcMachine twoMachines).outputs Net.new [.call first, .call second] =
      [some ⟨0, first, .failed⟩, some stale] ∧
    ¬ stale.Own := by
  refine ⟨by decide +kernel, fun h => ?_⟩
  exact absurd (h _ rfl).1 (by decide)

end Mitosis.Rpc
