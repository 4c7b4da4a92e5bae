import Mitosis.Datagram.Link

/-!
# Which completions the sessions wait for

A session takes any completion of the shared queue for its own, so the completion it takes
may be that of another session.  What stays right is the number: every session with a
pending send accounts for one signaled send whose completion was not polled yet.
-/

namespace Mitosis.Datagram

open Mitosis.OsNetwork
open Mitosis.Support

variable {σ Endpoint : Type} {W : Wire}

/-- Sends of the session are pending. -/
def UDSession.isBusy (session : UDSession Endpoint) : Bool := decide (0 < session.pending)

/-- The number of sessions on which sends are pending. -/
def Link.busy (s : Link Endpoint) : ℕ :=
  tally (fun entry => entry.1.isBusy.toNat) s.sessions.connected +
    s.connecting.countP UDSession.isBusy

/-- The number of signaled sends that were posted. -/
def signaled (q : UDQueue Endpoint) : ℕ := q.works.countP Prod.snd

/-- A completion can be polled, or a signaled send is in flight whose completion arrives. -/
def Expects (q : UDQueue Endpoint) : Prop :=
  q.waiting ≠ [] ∨ ∃ work ∈ q.inFlight, work.2 = true

variable {q : UDQueue Endpoint} {p : Port Endpoint}

/-- A completion that is expected can be polled once enough sends have ended. -/
theorem Expects.exists_poll (h : Expects q) :
    ∃ n q' wc, (q.completeAll unreported (List.replicate n .success)).poll = (q', some wc) := by
  by_cases hwaiting : q.waiting = []
  · rcases h with h | ⟨work, hwork, hsignaled⟩
    · exact absurd hwaiting h
    · obtain ⟨k, hle, hk⟩ := SendQueue.mem_inFlight_iff.mp hwork
      obtain ⟨send, rfl⟩ : ∃ send, work = (send, true) := ⟨work.1, Prod.ext rfl hsignaled⟩
      have hquiet : unreported .success = true := rfl
      obtain ⟨n, i, hn, -⟩ := SendQueue.exists_completeAll_waiting hquiet hle hk hwaiting
      exact ⟨n, _, _, SendQueue.poll_of_cons hn⟩
  · obtain ⟨c, rest, hc⟩ := List.exists_cons_of_ne_nil hwaiting
    exact ⟨0, _, _, SendQueue.poll_of_cons hc⟩

theorem Expects.exists_drain (h : Expects p.1) {limit : ℕ}
    (hlimit : limit < p.2.pending) :
    ∃ n q, drain limit p [⟨List.replicate n .success, none⟩] =
      ((q, { p.2 with pending := 0 }), .ok ()) ∧ q.works = p.1.works := by
  obtain ⟨n, q, wc, hpoll⟩ := h.exists_poll
  have hready : UDSession.poll p ⟨List.replicate n .success, none⟩ =
      ((q, { p.2 with pending := 0 }), .ok (.ready wc.2)) := by
    rw [UDSession.poll]
    dsimp only
    rw [hpoll]
  refine ⟨n, q, ?_, ?_⟩
  · rw [drain, if_pos hlimit, blockOn, hready]
    rfl
  · obtain ⟨rest, -, rfl⟩ := SendQueue.poll_eq_some hpoll
    exact (SendQueue.completes_completeAll p.1 _).works

/-! ## One session -/

/-- A session that becomes busy has posted a signaled send, and one that becomes idle has
polled a completion. -/
structure Balanced (p p' : Port Endpoint) : Prop where
  reported : p.1.Reported → p'.1.Reported
  count : signaled p'.1 + p.1.polled.length + p.2.isBusy.toNat =
    signaled p.1 + p'.1.polled.length + p'.2.isBusy.toNat

variable {r : Option (Except DatapathError WCStatus)} {message : List UInt8}

theorem Balanced.refl (p : Port Endpoint) : Balanced p p := ⟨id, rfl⟩

theorem Balanced.trans {p p' p'' : Port Endpoint} (h : Balanced p p') (h' : Balanced p' p'') :
    Balanced p p'' := by
  refine ⟨fun hp => h'.reported (h.reported hp), ?_⟩
  have hcount := h.count
  have hcount' := h'.count
  omega

theorem signaled_posted (id : ℕ) (message : List UInt8) (signal : Bool) (p : Port Endpoint) :
    signaled (posted id message signal p).1 = signaled p.1 + signal.toNat := by
  rw [signaled, posted, SendQueue.post_works, List.countP_append]
  cases signal <;> rfl

theorem balanced_posted (id : ℕ) (message : List UInt8) (p : Port Endpoint) :
    Balanced p (posted id message (p.2.pending == 0) p) := by
  refine ⟨fun hp => hp.post _ _, ?_⟩
  have hbusy : (posted id message (p.2.pending == 0) p).2.isBusy = true := by
    simp [posted, UDSession.isBusy]
  have hfirst : (p.2.pending == 0).toNat + p.2.isBusy.toNat = 1 := by
    cases hpending : p.2.pending <;> simp [UDSession.isBusy, hpending]
  have hpolled : (posted id message (p.2.pending == 0) p).1.polled = p.1.polled := rfl
  rw [signaled_posted, hbusy, hpolled, Bool.toNat_true]
  omega

theorem Ends.balanced (h : Ends p.1 q) :
    Balanced p (q, p.2) := by
  refine ⟨h.reported, ?_⟩
  rw [signaled, signaled, h.completes.works, h.completes.polled]

theorem Awaited.balanced {p p' : Port Endpoint}
    (h : Awaited p p' r) (hbusy : 0 < p.2.pending) : Balanced p p' := by
  cases h with
  | waiting h => exact h.balanced
  | failed h err => exact h.balanced
  | @taken q q' wc h hpoll =>
    apply h.balanced.trans
    refine ⟨fun hq => hq.poll hpoll, ?_⟩
    obtain ⟨rest, -, rfl⟩ := SendQueue.poll_eq_some hpoll
    simp [signaled, UDSession.isBusy, hbusy]
    omega

theorem balanced_drain (limit : ℕ) (p : Port Endpoint) (polls : List CqEvent) :
    Balanced p (drain limit p polls).1 := by
  rcases drain_awaited limit p polls with hsame | ⟨hlimit, r, hawaited⟩
  · rw [hsame]
    exact .refl p
  · exact hawaited.balanced (Nat.zero_lt_of_lt hlimit)

theorem Sends.balanced {limit id : ℕ} {p p' : Port Endpoint}
    (h : Sends limit id message p p') : Balanced p p' := by
  cases h with
  | refused => exact .refl p
  | @waited posted h polls =>
    apply Balanced.trans _ (balanced_drain limit posted polls)
    rcases h with rfl | rfl
    · exact .refl _
    · exact balanced_posted id message p

/-! ## All sessions -/

/-- Every busy session accounts for one completion that was not polled. -/
structure Accounted (s : Link Endpoint) : Prop where
  reported : s.sessions.queue.Reported
  count : signaled s.sessions.queue = s.sessions.queue.polled.length + s.busy

variable {s : Link Endpoint} {id : ℕ} {endpoint : Endpoint}

variable {session : UDSession Endpoint} {region : Memory} {a : LinkAction Endpoint}

theorem accounted_new : Accounted (Link.new : Link Endpoint) := ⟨SendQueue.reported_empty, rfl⟩

/-- A completion is expected as long as a session is busy. -/
theorem Accounted.expects (h : Accounted s) (hbusy : 0 < s.busy) :
    Expects s.sessions.queue := by
  apply h.reported.unpolled
  have hcount := h.count
  rw [signaled] at hcount
  omega

theorem Accounted.put (h : Accounted s)
    (hlookup : s.sessions.connected.lookup id = some (session, region))
    (hp : Balanced (s.sessions.queue, session) p) (region' : Memory) :
    Accounted { s with sessions := s.sessions.put id p region' } := by
  refine ⟨hp.reported h.reported, ?_⟩
  have htally := tally_insert_of_lookup
    (fun entry : UDSession Endpoint × Memory => entry.1.isBusy.toNat) hlookup (p.2, region')
  have hcount := h.count
  have hport := hp.count
  dsimp only [Link.busy, Sessions.put] at hcount hport htally ⊢
  omega

theorem Accounted.put_new (h : Accounted s)
    (hid : id ∉ s.sessions.connected)
    (hp : Balanced (s.sessions.queue, .create endpoint) p) (region : Memory) :
    Accounted { s with sessions := s.sessions.put id p region } := by
  refine ⟨hp.reported h.reported, ?_⟩
  have htally := tally_insert_of_notMem
    (fun entry : UDSession Endpoint × Memory => entry.1.isBusy.toNat) hid (p.2, region)
  have hidle : (UDSession.create endpoint).isBusy.toNat = 0 := rfl
  have hcount := h.count
  have hport := hp.count
  dsimp only [Link.busy, Sessions.put] at hcount hport htally ⊢
  omega

theorem Accounted.push (h : Accounted s) (hp : Balanced (s.sessions.queue, .create endpoint) p) :
    Accounted ⟨{ s.sessions with queue := p.1 }, p.2 :: s.connecting⟩ := by
  refine ⟨hp.reported h.reported, ?_⟩
  have hidle : (UDSession.create endpoint).isBusy.toNat = 0 := rfl
  have hcount := h.count
  have hport := hp.count
  have hcons : (p.2 :: s.connecting).countP UDSession.isBusy =
      s.connecting.countP UDSession.isBusy + p.2.isBusy.toNat := by
    rw [List.countP_cons]
    cases p.2.isBusy <;> rfl
  dsimp only [Link.busy] at hcount hport ⊢
  omega

theorem balanced_connect (h : Awaited (posted id message true (q, .create endpoint)) p r) :
    Balanced (q, .create endpoint) p :=
  (balanced_posted id message (q, .create endpoint)).trans (h.balanced (Nat.succ_pos _))

theorem Accounted.step (h : Accounted s)
    (hid : ConnectsOnce s a) : Accounted ((linkMachine W).step s a).1 := by
  cases a with
  | connect id stub endpoint metadata fresh env =>
    rcases step_connect W s id stub endpoint metadata fresh env with
      ⟨_, -, hstep⟩ | ⟨region, message, p, r, -, hawaited, hstep | ⟨-, _, hstep⟩⟩
    · rw [hstep]
      exact h.push (.refl (s.sessions.queue, .create endpoint))
    · rw [hstep]
      exact h.put_new hid (balanced_connect hawaited) region
    · rw [hstep]
      exact h.push (balanced_connect hawaited)
  | accept id endpoint fresh => exact h.put_new hid (.refl _) fresh
  | syncCall id call arg env =>
    dsimp only [linkMachine]
    rcases Sessions.syncCall_sends W s.sessions id call arg env with
      hsame | ⟨session, region, p, hlookup, -, hsends, hput⟩
    · rw [hsame]
      exact h
    · rw [hput]
      exact h.put hlookup hsends.balanced _
  | sendReply id output reply env =>
    cases hlookup : s.sessions.connected.lookup id with
    | none =>
      rw [step_sendReply_of_absent hlookup]
      exact h
    | some entry =>
      obtain ⟨p, hsends, hstep⟩ := step_sendReply (W := W) hlookup output reply env
      rw [hstep]
      exact h.put hlookup hsends.balanced _
  | complete statuses =>
    have hends : Ends s.sessions.queue (s.sessions.queue.completeAll unreported statuses) :=
      ⟨statuses, rfl⟩
    refine ⟨hends.reported h.reported, ?_⟩
    have hcount := h.count
    dsimp only [linkMachine, Link.busy, signaled] at hcount ⊢
    rw [hends.completes.works, hends.completes.polled]
    exact hcount

/-- Every run that connects an id once keeps the account. -/
theorem Accounted.run (h : Accounted s) {calls : List (LinkAction Endpoint)}
    (honce : (linkMachine W).Always ConnectsOnce s calls) :
    Accounted ((linkMachine W).run s calls) :=
  Machine.invariant Accounted (fun _ _ hs ha => hs.step ha) h honce

/-- So do the sessions of a hook, whatever it receives. -/
theorem accounted_hook (W : Wire) (service : Service σ) (transport : UDReceiver)
    (as : List (HookAction Endpoint)) :
    Accounted ⟨((hookMachine W).run (.new service transport) as).sessions, []⟩ := by
  obtain ⟨calls, honce, hrun⟩ :=
    exists_link_run W (RPCHook.new service transport : RPCHook σ Endpoint) [] as
  rw [← hrun]
  exact accounted_new.run honce

/-! ## Calls that wait -/

theorem Link.busy_of_lookup (h : s.sessions.connected.lookup id = some (session, region))
    (hpending : 0 < session.pending) : 0 < s.busy := by
  have hle := le_tally_of_lookup
    (fun entry : UDSession Endpoint × Memory => entry.1.isBusy.toNat) h
  have hone : session.isBusy.toNat = 1 := by simp [UDSession.isBusy, hpending]
  dsimp only at hle
  rw [Link.busy]
  omega

theorem busy_of_waiting (h : ((linkMachine W).step s a).2 = .error .waiting) :
    0 < ((linkMachine W).step s a).1.busy := by
  cases a with
  | connect id stub endpoint metadata fresh env =>
    rcases step_connect W s id stub endpoint metadata fresh env with
      ⟨_, hne, hstep⟩ | ⟨region, message, p, r, -, -, hstep | ⟨hpending, _, hstep⟩⟩
    · rw [hstep] at h
      exact absurd (Except.error.inj h) hne
    · rw [hstep] at h
      cases h
    · rw [hstep, Link.busy]
      have hbusy : p.2.isBusy = true := by simp [UDSession.isBusy, hpending]
      rw [List.countP_cons_of_pos hbusy]
      exact Nat.succ_pos _
  | accept id endpoint fresh => cases h
  | syncCall id call arg env =>
    have hwaiting := mapError_waiting h
    obtain ⟨session, region, hlookup, hpending⟩ := Sessions.syncCall_waiting hwaiting
    exact Link.busy_of_lookup hlookup (Nat.zero_lt_of_lt hpending)
  | sendReply id output reply env =>
    have hwaiting := mapError_waiting h
    obtain ⟨session, region, hlookup, hpending⟩ := Sessions.sendReply_waiting hwaiting
    exact Link.busy_of_lookup hlookup (Nat.zero_lt_of_lt hpending)
  | complete statuses => cases h

/-- Whatever connects, calls and replies are made on the sessions of one datagram, in which
order, and whichever posts and polls fail: the signaled sends without a polled completion are
as many as the sessions with pending sends.  So a call that waits has a completion to
wait for, and the assertion behind a wait does not fail. -/
theorem completions_match_busy_sessions (W : Wire) (calls : List (LinkAction Endpoint))
    (h : (linkMachine W).Always ConnectsOnce .new calls) :
    let s := (linkMachine W).run .new calls
    signaled s.sessions.queue = s.sessions.queue.polled.length + s.busy ∧
      (∀ call, ConnectsOnce s call → ((linkMachine W).step s call).2 = .error .waiting →
        Expects ((linkMachine W).step s call).1.sessions.queue) ∧
      ∀ limit (p : Port Endpoint) polls, (drain limit p polls).2 ≠ .error .panicked := by
  intro s
  have hs : Accounted s := accounted_new.run h
  refine ⟨hs.count, ?_, drain_not_panicked⟩
  intro call hcall hwaiting
  exact (hs.step hcall).expects (busy_of_waiting hwaiting)

/-- An empty reply during which the given sends end. -/
def replyAfter (id : ℕ) (ends : List WCStatus) : LinkAction ℕ :=
  .sendReply id [] ⟨.ok, 0⟩ ⟨none, [⟨ends, none⟩]⟩

/-- The fifth reply on session 2 takes the completion of the first reply on session 1. -/
def crossedReplies : List (LinkAction ℕ) :=
  [.accept 1 0 fun _ => 0, .accept 2 0 fun _ => 0, replyAfter 1 []] ++
    List.replicate 4 (replyAfter 2 []) ++ [replyAfter 2 [.success]] ++
    List.replicate 3 (replyAfter 1 [])

/-- Session 1 then waits for a completion that is none of its own sends'. -/
theorem crossed_completion_expected :
    let s := (linkMachine .packed).run .new crossedReplies
    (signaled s.sessions.queue = s.sessions.queue.polled.length + s.busy ∧
        signaled s.sessions.queue = 2 ∧ s.busy = 1) ∧
      ((linkMachine .packed).step s (replyAfter 1 [])).2 = .error .waiting ∧
      Expects ((linkMachine .packed).step s (replyAfter 1 [])).1.sessions.queue := by
  intro s
  obtain ⟨hcount, hexpects, -⟩ :=
    completions_match_busy_sessions .packed crossedReplies (by decide +kernel)
  have hwaiting : ((linkMachine .packed).step s (replyAfter 1 [])).2 = .error .waiting := by
    decide +kernel
  exact ⟨⟨hcount, by decide +kernel, by decide +kernel⟩, hwaiting,
    hexpects (replyAfter 1 []) trivial hwaiting⟩

end Mitosis.Datagram
