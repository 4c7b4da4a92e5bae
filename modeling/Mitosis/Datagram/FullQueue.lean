import Mitosis.Datagram.RoundTrip
import Mitosis.Datagram.Slots

/-!
# Filling the queue pair of a hook

The bound of `8 * N + 1` slots is reached.  After all sessions have connected, one reply
after the other is sent on each of them in turn.  In the fifth round every session takes
the completion of one of the connect replies, the oldest ones; four rounds later every
session has four pending sends again, and the next reply waits.

So the bound of the queue pair holds with up to 255 sessions only
(`send_slots_bounded_iff`).
-/

namespace Mitosis.Datagram

open Mitosis.OsNetwork
open Mitosis.Support

variable {σ Endpoint : Type} {W : Wire}

/-! ## A message for the hook -/

/-- The hook has one receive buffer, and no message has arrived in it. -/
def Listening (r : UDReceiver) : Prop := ∃ buf, r = ⟨[], [buf]⟩ ∧ buf.size = mtu

/-- Nothing fails, and sends end during a wait as the given polls find. -/
def quietEnv (endpoint : Endpoint) (polls : List CqEvent) (recv : RecvEvent) :
    PollEnv Endpoint where
  recv := recv
  createMeta _ := some endpoint
  sessionCreated := true
  fresh _ := 0
  send := ⟨none, polls⟩
  postRecvError := none

variable {hook : RPCHook σ Endpoint}

theorem exists_poll (hl : Listening hook.transport)
    {header : WireHeader} {body : List UInt8} (hfits : W.header.size + body.length ≤ mtu - grhSize)
    (hpayload : header.1.payload = body.length) {m : Incoming}
    (hm : ∀ msg, Carries W msg header body → decode W msg = m) (endpoint : Endpoint)
    {polls : List CqEvent} (hcalm : Calm polls)
    {replied : Sessions Endpoint × Except (Halted HookError) Unit}
    (hreact : ∀ recv transport,
      let reaction := { hook with transport }.react W (quietEnv endpoint polls recv) m
      (reaction.1.sessions, reaction.2) = replied) :
    ∃ a, CalmStep a ∧
      let step := (hookMachine W).step hook a
      step.1.sessions = replied.1 ∧
        (replied.2 = .ok () → Listening step.1.transport ∧ ¬ step.2.Waits) := by
  obtain ⟨buf, htransport, hsize⟩ := hl
  let packet := Packet.plain (W.header.encode header ++ body)
  let env := quietEnv endpoint polls ⟨[packet], none⟩
  refine ⟨.poll env, hcalm, ?_⟩
  have hready : hook.transport.poll env.recv = (⟨[], []⟩, .ok (.ready (buf.receive packet))) := by
    rw [htransport]
    rfl
  have hpoll := RPCHook.poll_of_ready (W := W) hready
  rw [hm _ (carries_receive hsize hfits hpayload rfl)] at hpoll
  have hreaction := hreact ⟨[packet], none⟩ ⟨[], []⟩
  have hkept := RPCHook.react_transport W { hook with transport := ⟨[], []⟩ } env m
  dsimp only [hookMachine, HookOutput.Waits]
  rw [hpoll]
  generalize RPCHook.react W _ env m = reaction at hreaction hkept
  obtain ⟨after, ret⟩ := reaction
  cases hreaction
  refine ⟨RPCHook.finish_sessions env _ _, ?_⟩
  rintro rfl
  refine ⟨⟨buf.receive packet, ?_, hsize⟩, by simp [RPCHook.finish, env, quietEnv,
    UDReceiver.postRecvBuf_none]⟩
  have hfree : after.transport.free = [] := by rw [hkept]
  have harrived : after.transport.arrived = [] := by rw [hkept]
  simp [RPCHook.finish, env, quietEnv, UDReceiver.postRecvBuf_none, hfree, harrived]

/-! ## One more send on a session -/

/-- The pending sends of a session, if it is connected. -/
def Sessions.pendingOf (s : Sessions Endpoint) (id : ℕ) : Option ℕ :=
  (s.connected.lookup id).map fun entry => entry.1.pending

/-- The sessions in which a reply is sent: this one is connected, if it was not before. -/
structure Opened (s s' : Sessions Endpoint) (id : ℕ) (session : UDSession Endpoint)
    (region : Memory) : Prop where
  lookup : s'.connected.lookup id = some (session, region)
  queue : s'.queue = s.queue
  put : ∀ p region, s'.put id p region = s.put id p region
  pending : session.pending = (s.pendingOf id).getD 0
  spaced : Spaced s → Spaced s'
  settled : Settled s → Settled s'

variable {s : Sessions Endpoint} {id : ℕ} {session : UDSession Endpoint} {region : Memory}

theorem opened_new (h : s.connected.lookup id = none)
    (endpoint : Endpoint) (region : Memory) :
    Opened s (s.put id (s.queue, .create endpoint) region) id (.create endpoint) region where
  lookup := Sessions.lookup_put _ _ _ _
  queue := rfl
  put p region' := Sessions.put_put _ _ _ _ _ _
  pending := by
    rw [Sessions.pendingOf, h]
    rfl
  spaced hs := hs.put_new (AList.lookup_eq_none.mp h) endpoint region
  settled hs := hs.put (Nat.zero_le _) id region

theorem opened_of_lookup (h : s.connected.lookup id = some (session, region)) (region' : Memory) :
    Opened s (s.put id (s.queue, session) region') id session region' where
  lookup := Sessions.lookup_put _ _ _ _
  queue := rfl
  put p region'' := Sessions.put_put _ _ _ _ _ _
  pending := by
    rw [Sessions.pendingOf, h]
    rfl
  spaced hs := hs.put h (.refl _) region'
  settled hs := hs.put (hs id session region h) id region'

/-- A message can arrive on which the hook sends this reply from these sessions, whatever
completions it waits for. -/
def Contacts (W : Wire) (hook : RPCHook σ Endpoint) (s : Sessions Endpoint) (id : ℕ)
    (reply : ReplyStubFactory) : Prop :=
  ∀ polls, Calm polls → ∃ a, CalmStep a ∧
    let step := (hookMachine W).step hook a
    let replied := s.sendReply W id reply ⟨none, polls⟩
    step.1.sessions = replied.1 ∧
      (replied.2 = .ok () → Listening step.1.transport ∧ ¬ step.2.Waits)

theorem contacts_connect (hl : Listening hook.transport)
    (hfits : W.header.size + W.hyper.size ≤ mtu - grhSize) (endpoint : Endpoint)
    (hid : id < 2 ^ 64) (hlookup : hook.sessions.connected.lookup id = none) :
    Contacts W hook
      (hook.sessions.put id (hook.sessions.queue, .create endpoint) fun _ => 0) id ⟨.ok, 0⟩ := by
  intro polls hcalm
  have hword : (UInt64.ofNat id).toNat = id := UInt64.toNat_ofNat_of_lt' hid
  have hbody : W.header.size + (W.hyper.encode default).length ≤ mtu - grhSize := by
    rwa [W.hyper.length_encode]
  have hpayload : word W.hyper.size = (W.hyper.encode default).length := by
    rw [← word_length hbody, W.hyper.length_encode]
  have hdecode : ∀ msg, Carries W msg (ConnectStubFactory.header ⟨.ofNat id⟩ W.hyper.size)
      (W.hyper.encode default) → decode W msg = .connect id (some default) := by
    intro msg hcarries
    rw [decode_connect hcarries]
    exact congrArg (Incoming.connect · (some default)) hword
  apply exists_poll hl hbody hpayload hdecode endpoint hcalm
  intro recv transport
  have hconnects : RPCHook.Connects { hook with transport } (quietEnv endpoint polls recv)
      id default endpoint := ⟨AList.lookup_eq_none.mp hlookup, rfl, rfl⟩
  rw [RPCHook.react_of_connects hconnects]
  rfl

theorem contacts_request (hl : Listening hook.transport)
    (hfits : W.header.size ≤ mtu - grhSize) (endpoint : Endpoint) (hid : id < 2 ^ 64)
    (hlookup : hook.sessions.connected.lookup id = some (session, region)) :
    let executed := hook.service.execute 0 [] (RPCHook.outBuf W) region
    Contacts W hook (hook.sessions.put id (hook.sessions.queue, session) executed.2.1) id
      (RPCHook.answer executed.2.2) := by
  intro executed polls hcalm
  have hword : (UInt64.ofNat id).toNat = id := UInt64.toNat_ofNat_of_lt' hid
  have hdecode : ∀ msg,
      Carries W msg (CallStubFactory.header ⟨.ofNat id, 0⟩ ([] : List UInt8).length) [] →
        decode W msg = .request ⟨id, 0⟩ [] := by
    intro msg hcarries
    rw [decode_call hcarries]
    exact congrArg (fun id => Incoming.request ⟨id, 0⟩ []) hword
  have hbody : W.header.size + ([] : List UInt8).length ≤ mtu - grhSize := hfits
  apply exists_poll hl hbody rfl hdecode endpoint hcalm
  intro recv transport
  rw [RPCHook.react_of_lookup hlookup]
  rfl

theorem exists_contact (hl : Listening hook.transport)
    (hfits : W.header.size + W.hyper.size ≤ mtu - grhSize) (endpoint : Endpoint)
    (hid : id < 2 ^ 64) :
    ∃ s session region reply,
      Opened hook.sessions s id session region ∧ Contacts W hook s id reply := by
  cases hlookup : hook.sessions.connected.lookup id with
  | none =>
    exact ⟨_, _, _, _, opened_new hlookup endpoint fun _ => 0,
      contacts_connect hl hfits endpoint hid hlookup⟩
  | some entry =>
    exact ⟨_, entry.1, _, _, opened_of_lookup hlookup _,
      contacts_request hl ((Nat.le_add_right _ _).trans hfits) endpoint hid hlookup⟩

theorem Sessions.sendReply_quiet (h : s.connected.lookup id = some (session, region))
    (reply : ReplyStubFactory) :
    ∃ message region', ∀ polls, s.sendReply W id reply ⟨none, polls⟩ =
      let drained := drain 4 (posted id message (session.pending == 0) (s.queue, session)) polls
      (s.put id drained.1 region', replyOutcome (.ok ()) drained.2) := by
  refine ⟨readBytes (replyRegion W reply region) 0 (replySize W reply),
    replyRegion W reply region, fun polls => ?_⟩
  rw [sendReply_of_lookup h]
  dsimp only
  rw [postReply_of_none rfl]

theorem Sessions.pendingOf_put (s : Sessions Endpoint) (id : ℕ) (p : Port Endpoint)
    (region : Memory) (other : ℕ) :
    (s.put id p region).pendingOf other =
      if other = id then some p.2.pending else s.pendingOf other := by
  rw [pendingOf]
  by_cases hother : other = id
  · rw [if_pos hother, hother, lookup_put]
    rfl
  · rw [if_neg hother, lookup_put_ne s hother]
    rfl

/-- The sends on these sessions were made, in this order. -/
structure Ran (ids : List ℕ) (hook : RPCHook σ Endpoint) : Prop where
  listening : Listening hook.transport
  spaced : Spaced hook.sessions
  settled : Settled hook.sessions
  pending : ∀ id, hook.sessions.pendingOf id = if id ∈ ids then some (ids.count id % 5) else none
  length : hook.sessions.queue.works.length = ids.length
  first : ids.Nodup → ∀ work ∈ hook.sessions.queue.works, work.2 = true

variable {ids : List ℕ}

theorem ran_new (service : Service σ) {transport : UDReceiver} (h : Listening transport) :
    Ran [] (RPCHook.new service transport : RPCHook σ Endpoint) where
  listening := h
  spaced := spaced_new
  settled := settled_new
  pending _ := rfl
  length := rfl
  first _ work hwork := by cases hwork

/-- Some wait lets a reply return: none if it is one of the first four, otherwise one in which
the expected completion arrives. -/
theorem exists_calm_drain {p : Port Endpoint} (hexpects : Expects p.1) (hle : p.2.pending ≤ 5) :
    ∃ polls q, Calm polls ∧
      drain 4 p polls = ((q, { p.2 with pending := p.2.pending % 5 }), .ok ()) ∧
      q.works = p.1.works := by
  by_cases hfew : p.2.pending ≤ 4
  · refine ⟨[], p.1, by simp [Calm], ?_, rfl⟩
    rw [drain, if_neg (Nat.not_lt.mpr hfew), Nat.mod_eq_of_lt (Nat.lt_succ_of_le hfew)]
  · obtain ⟨n, q, hdrain, hworks⟩ := hexpects.exists_drain (Nat.lt_of_not_le hfew)
    have hfive : p.2.pending = 5 := by omega
    refine ⟨_, q, ?_, by rw [hdrain, hfive], hworks⟩
    intro e he
    rw [List.mem_singleton.mp he]

theorem Opened.expects {s s' : Sessions Endpoint} (h : Opened s s' id session region)
    (hs : Spaced s)
    (message : List UInt8) :
    Expects (posted id message (session.pending == 0) (s'.queue, session)).1 := by
  have hposted := (h.spaced hs).put h.lookup (slotted_posted id message _) region
  apply hposted.accounted.expects
  exact Link.busy_of_lookup (Sessions.lookup_put _ _ _ _) (Nat.succ_pos _)

theorem Ran.pending_eq (h : Ran ids hook) (id : ℕ) :
    (hook.sessions.pendingOf id).getD 0 = ids.count id % 5 := by
  rw [h.pending]
  by_cases hmem : id ∈ ids
  · rw [if_pos hmem]
    rfl
  · rw [if_neg hmem, List.count_eq_zero_of_not_mem hmem]
    rfl

theorem Ran.concat {hook after : RPCHook σ Endpoint} (h : Ran ids hook)
    (hlistening : Listening after.transport) (hspaced : Spaced after.sessions)
    (hsettled : Settled after.sessions)
    (hpending : ∀ other, after.sessions.pendingOf other =
      if other = id then some ((ids.count id + 1) % 5) else hook.sessions.pendingOf other)
    {send : UDSend Endpoint}
    (hworks : after.sessions.queue.works =
      hook.sessions.queue.works ++ [(send, ids.count id % 5 == 0)]) :
    Ran (ids ++ [id]) after where
  listening := hlistening
  spaced := hspaced
  settled := hsettled
  pending other := by
    rw [hpending]
    by_cases hother : other = id
    · subst hother
      simp
    · simp [hother, h.pending other, Ne.symm hother]
  length := by
    rw [hworks, List.length_append, List.length_append, h.length]
    rfl
  first hnodup work hwork := by
    obtain ⟨hids, -, hnew⟩ := List.nodup_append.mp hnodup
    rw [hworks] at hwork
    rcases List.mem_append.mp hwork with hwork | hwork
    · exact h.first hids work hwork
    · have hcount : ids.count id = 0 := by
        apply List.count_eq_zero_of_not_mem
        exact fun hmem => hnew id hmem id (by simp) rfl
      rw [List.mem_singleton.mp hwork, hcount]
      rfl

theorem Ran.exists_step (h : Ran ids hook)
    (hfits : W.header.size + W.hyper.size ≤ mtu - grhSize) (endpoint : Endpoint)
    (hid : id < 2 ^ 64) :
    ∃ a, (CalmStep a ∧ ¬ ((hookMachine W).step hook a).2.Waits) ∧
      Ran (ids ++ [id]) ((hookMachine W).step hook a).1 ∧
      hook.sessions.queue.works <+: ((hookMachine W).step hook a).1.sessions.queue.works := by
  obtain ⟨s, session, region, reply, hopened, hcontact⟩ :=
    exists_contact h.listening hfits endpoint hid
  obtain ⟨message, region', hquiet⟩ := Sessions.sendReply_quiet (W := W) hopened.lookup reply
  have hle : session.pending ≤ 4 := hopened.settled h.settled id session region hopened.lookup
  obtain ⟨polls, q, hcalm, hdrain, hworks⟩ :=
    exists_calm_drain (hopened.expects h.spaced message) (Nat.succ_le_succ hle)
  obtain ⟨a, ha, hsessions, hreturns⟩ := hcontact polls hcalm
  rw [hquiet polls, hdrain] at hsessions hreturns
  dsimp only at hsessions
  obtain ⟨hlistening, hwaits⟩ := hreturns rfl
  have hserved := served_step (W := W) h.spaced h.settled ha
  have hbefore : session.pending = ids.count id % 5 := by rw [hopened.pending, h.pending_eq]
  have hafter : ((hookMachine W).step hook a).1.sessions.queue.works =
      hook.sessions.queue.works ++ [(⟨id, session.endpoint, message⟩, ids.count id % 5 == 0)] := by
    rw [hsessions, ← hopened.queue, ← hbefore]
    exact hworks
  refine ⟨a, ⟨ha, hwaits⟩,
    h.concat hlistening hserved.spaced (hserved.settled hwaits) ?_ hafter, ?_⟩
  · intro other
    have hmod : (session.pending + 1) % 5 = (ids.count id + 1) % 5 := by omega
    rw [hsessions, hopened.put, Sessions.pendingOf_put]
    simp [posted, hmod]
  · rw [hafter]
    exact List.prefix_append _ _

theorem Ran.exists_run (h : Ran ids hook)
    (hfits : W.header.size + W.hyper.size ≤ mtu - grhSize) (endpoint : Endpoint) (more : List ℕ)
    (hmore : ∀ id ∈ more, id < 2 ^ 64) :
    ∃ as, (hookMachine W).Always
        (fun hook a => CalmStep a ∧ ¬ ((hookMachine W).step hook a).2.Waits) hook as ∧
      Ran (ids ++ more) ((hookMachine W).run hook as) ∧
      hook.sessions.queue.works <+: ((hookMachine W).run hook as).sessions.queue.works := by
  induction more generalizing ids hook with
  | nil => exact ⟨[], trivial, by rwa [List.append_nil], List.prefix_rfl⟩
  | cons id more ih =>
    obtain ⟨hid, hrest⟩ := List.forall_mem_cons.mp hmore
    obtain ⟨a, ha, hstep, hworks⟩ := h.exists_step hfits endpoint hid
    obtain ⟨as, has, hrun, hworks'⟩ := ih hstep hrest
    rw [List.append_assoc] at hrun
    exact ⟨a :: as, ⟨ha, has⟩, hrun, hworks.trans hworks'⟩

/-! ## Nine rounds -/

/-- One send on each of `N` sessions in turn, and so on. -/
def rounds (N k : ℕ) : List ℕ := (List.replicate k (List.range N)).flatten

variable {N : ℕ}

theorem count_rounds {id N : ℕ} (h : id < N) (k : ℕ) : (rounds N k).count id = k := by
  have hone : (List.range N).count id = 1 :=
    List.count_eq_one_of_mem List.nodup_range (List.mem_range.mpr h)
  rw [rounds, List.count_flatten, List.map_replicate, hone]
  simp

theorem length_rounds (N k : ℕ) : (rounds N k).length = k * N := by
  simp [rounds]

theorem lt_of_mem_rounds {id N k : ℕ} (h : id ∈ rounds N k) : id < N := by
  obtain ⟨round, hround, hid⟩ := List.mem_flatten.mp h
  rw [List.eq_of_mem_replicate hround] at hid
  exact List.mem_range.mp hid

theorem mem_rounds_succ {id N : ℕ} (k : ℕ) : id ∈ rounds N (k + 1) ↔ id < N := by
  refine ⟨lt_of_mem_rounds, fun h => ?_⟩
  rw [← List.count_pos_iff, count_rounds h]
  exact Nat.succ_pos k

theorem Ran.mem_connected (h : Ran ids hook) (id : ℕ) :
    id ∈ hook.sessions.connected ↔ id ∈ ids := by
  have hpending := congrArg Option.isSome (h.pending id)
  rw [Sessions.pendingOf, Option.isSome_map] at hpending
  rw [← AList.lookup_isSome, hpending]
  split <;> simp_all

theorem Ran.sessions_count (h : Ran ids hook)
    (hids : ∀ id, id ∈ ids ↔ id < N) : hook.sessions.count = N := by
  have hperm : hook.sessions.connected.keys.Perm (List.range N) := by
    rw [List.perm_ext_iff_of_nodup (AList.keys_nodup _) List.nodup_range]
    intro id
    rw [List.mem_range, ← hids, ← h.mem_connected]
    exact AList.mem_keys.symm
  rw [Sessions.count, hperm.length_eq, List.length_range]

theorem Sessions.pending_of_forall {c : ℕ}
    (h : ∀ id entry, s.connected.lookup id = some entry → entry.1.pending = c) :
    s.pending = s.count * c := by
  rw [Sessions.count, ← tally_const]
  apply le_antisymm
  · exact tally_mono fun id entry hlookup => (h id entry hlookup).le
  · exact tally_mono fun id entry hlookup => (h id entry hlookup).ge

/-- After nine rounds every session has taken one completion and has four pending sends. -/
theorem Ran.nine_rounds (h : Ran (rounds N 9) hook) :
    hook.sessions.count = N ∧ (∀ id, id < N → hook.sessions.pendingOf id = some 4) ∧
      hook.sessions.queue.works.length = 9 * N ∧ hook.sessions.queue.polled.length = N := by
  have hcount := h.sessions_count fun id => mem_rounds_succ 8
  have hfour : ∀ id, id < N → hook.sessions.pendingOf id = some 4 := by
    intro id hid
    rw [h.pending, if_pos ((mem_rounds_succ 8).mpr hid), count_rounds hid]
  have hpending : hook.sessions.pending = hook.sessions.count * 4 := by
    apply Sessions.pending_of_forall
    intro id entry hlookup
    have hid := (mem_rounds_succ 8).mp ((h.mem_connected id).mp (mem_of_lookup hlookup))
    have hentry := hfour id hid
    rw [Sessions.pendingOf, hlookup] at hentry
    exact Option.some.inj hentry
  have hlength := h.length
  rw [length_rounds] at hlength
  have hpolled := h.spaced.length
  exact ⟨hcount, hfour, hlength, by omega⟩

theorem Ran.polled_lt {hook hook' : RPCHook σ Endpoint}
    (h : Ran (List.range N) hook) (h' : Ran ids hook')
    (hworks : hook.sessions.queue.works <+: hook'.sessions.queue.works)
    (hpolled : hook'.sessions.queue.polled.length = N) :
    ∀ c ∈ hook'.sessions.queue.polled, c.1 < N := by
  have hplaces := SendQueue.places_isPrefix hworks
  rw [SendQueue.places_of_forall (h.first List.nodup_range), h.length, List.length_range] at hplaces
  have heq : hook'.sessions.queue.polled.map Prod.fst = List.range N := by
    apply List.IsPrefix.eq_of_length
    · apply List.prefix_of_prefix_length_le h'.spaced.accounted.reported.polled_isPrefix hplaces
      simp [hpolled]
    · simp [hpolled]
  intro c hc
  rw [← List.mem_range, ← heq]
  exact List.mem_map_of_mem hc

/-- A session with four pending sends posts a fifth and waits. -/
theorem exists_waiting_step (hl : Listening hook.transport)
    (hfits : W.header.size + W.hyper.size ≤ mtu - grhSize) (endpoint : Endpoint)
    (hid : id < 2 ^ 64) (hpending : hook.sessions.pendingOf id = some 4) :
    ∃ a, CalmStep a ∧
      let after := ((hookMachine W).step hook a).1.sessions
      after.count = hook.sessions.count ∧
        after.queue.works.length = hook.sessions.queue.works.length + 1 ∧
        after.queue.polled = hook.sessions.queue.polled := by
  obtain ⟨s, session, region, reply, hopened, hcontact⟩ := exists_contact hl hfits endpoint hid
  obtain ⟨message, region', hquiet⟩ := Sessions.sendReply_quiet (W := W) hopened.lookup reply
  have hfour : session.pending = 4 := by
    rw [hopened.pending, hpending]
    rfl
  have hwaits : drain 4 (posted id message (session.pending == 0) (s.queue, session)) [] =
      (posted id message (session.pending == 0) (s.queue, session), .error .waiting) := by
    rw [drain, if_pos (by simp [posted, hfour])]
    rfl
  obtain ⟨a, ha, hsessions, -⟩ := hcontact [] (by simp [Calm])
  rw [hquiet [], hwaits] at hsessions
  refine ⟨a, ha, ?_⟩
  dsimp only at hsessions ⊢
  obtain ⟨entry, hlookup, -⟩ := Option.map_eq_some_iff.mp hpending
  rw [hsessions, hopened.put, Sessions.count_put hlookup]
  refine ⟨rfl, ?_, ?_⟩
  · simp [Sessions.put, posted, hopened.queue]
  · simp [Sessions.put, posted, hopened.queue]

/-- A hook without sessions that has one receive buffer. -/
def RPCHook.idle (service : Service σ) : RPCHook σ Endpoint :=
  .new service ⟨[], [UDMsg.create fun _ => 0]⟩

/-- `N` sessions can take `8 * N + 1` slots. -/
theorem exists_full_run (hfits : W.header.size + W.hyper.size ≤ mtu - grhSize)
    (service : Service σ) (endpoint : Endpoint) (hpos : 0 < N) (hN : N ≤ 2 ^ 64) :
    ∃ as a, ReplyRun W (RPCHook.idle service : RPCHook σ Endpoint) as a ∧
      let after := ((hookMachine W).run (RPCHook.idle service : RPCHook σ Endpoint)
        (as ++ [a])).sessions
      after.count = N ∧ after.queue.unreclaimed = 8 * N + 1 := by
  have hidle : Ran [] (RPCHook.idle service : RPCHook σ Endpoint) := ran_new service ⟨_, rfl, rfl⟩
  obtain ⟨connects, hconnects, hfirst, -⟩ := hidle.exists_run hfits endpoint (List.range N)
    fun id hid => (List.mem_range.mp hid).trans_le hN
  obtain ⟨requests, hrequests, hran, hworks⟩ := hfirst.exists_run hfits endpoint (rounds N 8)
    fun id hid => (lt_of_mem_rounds hid).trans_le hN
  obtain ⟨hcount, hfour, hlength, hpolled⟩ := Ran.nine_rounds hran
  have hlt := hfirst.polled_lt hran hworks hpolled
  obtain ⟨a, ha, hsame, hone, hnone⟩ := exists_waiting_step (W := W) hran.listening hfits endpoint
    (Nat.two_pow_pos 64) (hfour 0 hpos)
  have hrun : ReplyRun W (RPCHook.idle service : RPCHook σ Endpoint) (connects ++ requests) a :=
    ⟨Machine.always_append.mpr ⟨hconnects, hrequests⟩, ha⟩
  refine ⟨connects ++ requests, a, hrun, ?_⟩
  have hle := ReplyRun.unreclaimed_le hrun
  rw [← RPCHook.idle, Machine.run_concat, Machine.run_append] at hle
  rw [Machine.run_concat, Machine.run_append]
  dsimp only at hle ⊢
  rw [hsame, hcount] at hle
  refine ⟨hsame.trans hcount, le_antisymm hle ?_⟩
  have hge := SendQueue.le_unreclaimed (hnone ▸ hlt)
  omega

/-! ## The bound of the queue pair -/

/-- With at most `N` sessions no more slots are taken than the queue pair has, whatever the
hook receives. -/
def SlotsSuffice (W : Wire) (service : Service σ) (Endpoint : Type) (N : ℕ) : Prop :=
  ∀ (transport : UDReceiver) (as : List (HookAction Endpoint)) (a : HookAction Endpoint),
    ReplyRun W (.new service transport) as a →
    let after := ((hookMachine W).run (.new service transport) (as ++ [a])).sessions
    after.count ≤ N → after.queue.unreclaimed ≤ maxSendWr

/-- The slots suffice for 255 sessions and no more. -/
theorem send_slots_bounded_iff (W : Wire) (hfits : W.header.size + W.hyper.size ≤ mtu - grhSize)
    (service : Service σ) (endpoint : Endpoint) (N : ℕ) :
    SlotsSuffice W service Endpoint N ↔ N ≤ 255 := by
  constructor
  · intro hsuffice
    by_contra hmany
    obtain ⟨as, a, hrun, hcount, hfull⟩ := exists_full_run hfits service endpoint
      (Nat.succ_pos 255) (by decide)
    have hle := hsuffice _ as a hrun (hcount.le.trans (Nat.lt_of_not_le hmany))
    rw [maxSendWr] at hle
    exact absurd (hfull.ge.trans hle) (by norm_num)
  · intro hfew transport as a hrun after hcount
    calc after.queue.unreclaimed ≤ 8 * after.count + 1 := hrun.unreclaimed_le
      _ ≤ 8 * 255 + 1 := by omega
      _ ≤ maxSendWr := by decide

theorem slots_suffice_for_255_sessions :
    SlotsSuffice .packed (Service.new ()) ℕ 255 :=
  (send_slots_bounded_iff .packed (by decide) (Service.new ()) 0 255).mpr le_rfl

/-- With 256 sessions the 2049th send is posted while none of the 2048 before it has a
reclaimed slot. -/
theorem slots_exceeded_with_256_sessions :
    ∃ as a, ReplyRun .packed (RPCHook.idle (Service.new ()) : RPCHook Unit ℕ) as a ∧
      let after := ((hookMachine .packed).run (RPCHook.idle (Service.new ()) : RPCHook Unit ℕ)
        (as ++ [a])).sessions
      after.count = 256 ∧ after.queue.unreclaimed = 2049 ∧ maxSendWr < 2049 := by
  obtain ⟨as, a, hrun, hcount, hfull⟩ := exists_full_run (W := .packed) (by decide)
    (Service.new ()) (0 : ℕ) (Nat.succ_pos 255) (by decide)
  exact ⟨as, a, hrun, hcount, hfull, by decide⟩

end Mitosis.Datagram
