import Mitosis.Datagram.Link

/-!
# The buffer of a session while its sends are in flight

A session generates every message in the same buffer and does not wait for its earlier
sends.  The adapter reads the buffer at some time between the post and the end of a send, so
a send goes out with the bytes it was posted with if the buffer holds them all that time.

It does exactly as long as every message that is generated agrees, as far as both reach,
with the sends of the session that are in flight (`buffers_intact_iff`).
-/

namespace Mitosis.Datagram

open Mitosis.OsNetwork
open Mitosis.Support

variable {Endpoint : Type} {W : Wire}

/-- Every send in flight still has its bytes in the buffer of its session. -/
def Sessions.Intact (s : Sessions Endpoint) : Prop :=
  ∀ w ∈ s.queue.inFlight, ∀ session region,
    s.connected.lookup w.1.session = some (session, region) → Holds region 0 w.1.message

/-- The sessions when a call has generated its message, before it posts it. -/
def written (W : Wire) (s : Sessions Endpoint) : LinkAction Endpoint → Sessions Endpoint
  | .syncCall id call arg _ =>
    match s.connected.lookup id with
    | none => s
    | some (session, region) =>
      s.put id (s.queue, session) (call.generate W arg (UDMsg.create region).bytes region).1
  | .sendReply id output reply _ =>
    match s.connected.lookup id with
    | none => s
    | some (session, region) =>
      let region := outputRegion W output region
      s.put id (s.queue, session) (reply.generate W (UDMsg.create region).bytes region).1
  | _ => s

/-- The session in whose buffer a call generates, and the bytes: header and argument of a
request, or its header only if the argument does not fit, header and output of a reply. -/
def generated (W : Wire) : LinkAction Endpoint → Option (ℕ × List UInt8)
  | .syncCall id call arg _ =>
    some (id, W.header.encode (call.header arg.length) ++
      if W.header.size + arg.length ≤ mtu then arg else [])
  | .sendReply id output reply _ =>
    some (id, W.header.encode reply.header ++ output.take (RPCHook.outBuf W).len)
  | _ => none

/-- Two messages are alike as far as both reach. -/
def Agree (bytes message : List UInt8) : Prop := message <+: bytes ∨ bytes <+: message
deriving Decidable

/-- What the call generates agrees with the sends of its session in flight. -/
def Undisturbed (W : Wire) (s : Link Endpoint) (a : LinkAction Endpoint) : Prop :=
  ∀ g ∈ generated W a, g.1 ∈ s.sessions.connected →
    ∀ w ∈ s.sessions.queue.inFlight, w.1.session = g.1 → Agree g.2 w.1.message
deriving Decidable

/-- A new session gets an id that is not connected and under which nothing is in flight. -/
def NewId (s : Link Endpoint) (id : ℕ) : Prop :=
  id ∉ s.sessions.connected ∧ ∀ w ∈ s.sessions.queue.inFlight, w.1.session ≠ id
deriving Decidable

def ConnectsNew (s : Link Endpoint) : LinkAction Endpoint → Prop
  | .connect id .. => NewId s id
  | .accept id .. => NewId s id
  | _ => True

instance (s : Link Endpoint) : ∀ a, Decidable (ConnectsNew s a)
  | .connect id .. => inferInstanceAs (Decidable (NewId s id))
  | .accept id .. => inferInstanceAs (Decidable (NewId s id))
  | .syncCall .. => isTrue trivial
  | .sendReply .. => isTrue trivial
  | .complete _ => isTrue trivial

/-! ## Generating a message -/

variable {s : Sessions Endpoint} {a : LinkAction Endpoint} {id : ℕ} {session : UDSession Endpoint}
  {region : Memory}

theorem generate_call_region (W : Wire) (call : CallStubFactory) (arg : List UInt8)
    (region : Memory) :
    (call.generate W arg (UDMsg.create region).bytes region).1 =
      writeBytes region 0 (W.header.encode (call.header arg.length) ++
        if W.header.size + arg.length ≤ mtu then arg else []) := by
  rw [CallStubFactory.generate]
  by_cases hfits : W.header.size + arg.length ≤ mtu
  · rw [if_pos hfits, generateStub_of_le hfits]
    rfl
  · rw [if_neg hfits, List.append_nil,
      generateStub_of_lt (header_size_le W) (Nat.lt_of_not_le hfits)]
    rfl

theorem replyRegion_outputRegion (W : Wire) (reply : ReplyStubFactory) (output : List UInt8)
    (region : Memory) :
    replyRegion W reply (outputRegion W output region) =
      writeBytes region 0
        (W.header.encode reply.header ++ output.take (RPCHook.outBuf W).len) := by
  have hheader : 0 + (W.header.encode reply.header).length = (RPCHook.outBuf W).ptr := by
    rw [W.header.length_encode, Nat.zero_add]
    rfl
  rw [replyRegion, outputRegion, writeBytes_comm _ hheader.le, ← hheader, writeBytes_append]

theorem written_of_lookup
    {bytes : List UInt8} (ha : generated W a = some (id, bytes))
    (h : s.connected.lookup id = some (session, region)) :
    written W s a = s.put id (s.queue, session) (writeBytes region 0 bytes) := by
  cases a with
  | syncCall id' call arg env =>
    cases ha
    rw [written, h, ← generate_call_region]
  | sendReply id' output reply env =>
    cases ha
    rw [written, h, ← replyRegion_outputRegion]
    dsimp only
    rw [generate_reply]
  | connect => cases ha
  | accept => cases ha
  | complete => cases ha

theorem written_of_absent
    (h : ∀ id bytes, generated W a = some (id, bytes) → s.connected.lookup id = none) :
    written W s a = s := by
  cases a with
  | syncCall id call arg env => rw [written, h id _ rfl]
  | sendReply id output reply env => rw [written, h id _ rfl]
  | connect => rfl
  | accept => rfl
  | complete => rfl

/-! ## Which buffers stay intact -/

variable {p : Port Endpoint}

theorem Sessions.Intact.put (hs : s.Intact)
    (hold : ∀ w ∈ s.queue.inFlight, w.1.session = id → Holds region 0 w.1.message)
    (hnew : ∀ w ∈ p.1.inFlight,
      w ∈ s.queue.inFlight ∨ w.1.session = id ∧ Holds region 0 w.1.message) :
    (s.put id p region).Intact := by
  intro w hw session region' hlookup
  by_cases hid : w.1.session = id
  · rw [hid, Sessions.lookup_put] at hlookup
    cases hlookup
    rcases hnew w hw with hw | ⟨-, hholds⟩
    · exact hold w hw hid
    · exact hholds
  · rw [Sessions.lookup_put_ne s hid] at hlookup
    rcases hnew w hw with hw | ⟨hid', -⟩
    · exact hs w hw session region' hlookup
    · exact absurd hid' hid

/-- A message can be generated without harm exactly if it agrees with what is in flight. -/
theorem Sessions.Intact.put_iff (hs : s.Intact)
    (h : s.connected.lookup id = some (session, region)) (bytes : List UInt8) :
    (s.put id (s.queue, session) (writeBytes region 0 bytes)).Intact ↔
      ∀ w ∈ s.queue.inFlight, w.1.session = id → Agree bytes w.1.message := by
  constructor
  · intro hput w hw hid
    have hbefore := hs w hw session region (hid ▸ h)
    apply hbefore.writeBytes_iff.mp
    apply hput w hw session
    rw [hid, Sessions.lookup_put]
  · intro hagree
    apply hs.put
    · intro w hw hid
      have hbefore := hs w hw session region (hid ▸ h)
      exact hbefore.writeBytes_iff.mpr (hagree w hw hid)
    · exact fun w hw => Or.inl hw

theorem intact_written_iff {s : Link Endpoint} (hs : s.sessions.Intact)
    (a : LinkAction Endpoint) : (written W s.sessions a).Intact ↔ Undisturbed W s a := by
  by_cases hconnected : ∃ id bytes, generated W a = some (id, bytes) ∧ id ∈ s.sessions.connected
  · obtain ⟨id, bytes, ha, hid⟩ := hconnected
    obtain ⟨⟨session, region⟩, hlookup⟩ := Option.isSome_iff_exists.mp (AList.lookup_isSome.mpr hid)
    rw [written_of_lookup ha hlookup, hs.put_iff hlookup]
    constructor
    · intro hagree g hg _
      cases ha.symm.trans hg
      exact hagree
    · exact fun hagree => hagree (id, bytes) ha hid
  · have habsent : ∀ id bytes, generated W a = some (id, bytes) → id ∉ s.sessions.connected :=
      fun id bytes ha hid => hconnected ⟨id, bytes, ha, hid⟩
    rw [written_of_absent fun id bytes ha => AList.lookup_eq_none.mpr (habsent id bytes ha)]
    exact iff_of_true hs fun g hg hid => absurd hid (habsent g.1 g.2 hg)

/-! ## What is in flight behind a call -/

variable {w : UDSend Endpoint × Bool} {message : List UInt8}

theorem Ends.mem_inFlight {q q' : UDQueue Endpoint} (h : Ends q q')
    (hw : w ∈ q'.inFlight) : w ∈ q.inFlight :=
  h.completes.mem_inFlight hw

theorem Awaited.mem_inFlight {p p' : Port Endpoint} {r : Option (Except DatapathError WCStatus)}
    (h : Awaited p p' r) (hw : w ∈ p'.1.inFlight) :
    w ∈ p.1.inFlight := by
  cases h with
  | waiting h => exact h.mem_inFlight hw
  | failed h err => exact h.mem_inFlight hw
  | taken h hpoll =>
    obtain ⟨rest, -, rfl⟩ := SendQueue.poll_eq_some hpoll
    exact h.mem_inFlight hw

theorem mem_inFlight_drain {limit : ℕ} {polls : List CqEvent}
    (hw : w ∈ (drain limit p polls).1.1.inFlight) :
    w ∈ p.1.inFlight := by
  rcases drain_awaited limit p polls with hsame | ⟨-, r, hawaited⟩
  · rwa [hsame] at hw
  · exact hawaited.mem_inFlight hw

theorem mem_inFlight_posted {signal : Bool} (hw : w ∈ (posted id message signal p).1.inFlight) :
    w ∈ p.1.inFlight ∨ w.1.session = id ∧ w.1.message = message := by
  rcases SendQueue.mem_inFlight_post hw with hw | rfl
  · exact Or.inl hw
  · exact Or.inr ⟨rfl, rfl⟩

theorem Sends.mem_inFlight {limit id : ℕ} {p p' : Port Endpoint}
    (h : Sends limit id message p p') (hw : w ∈ p'.1.inFlight) :
    w ∈ p.1.inFlight ∨ w.1.session = id ∧ w.1.message = message := by
  cases h with
  | refused => exact Or.inl hw
  | waited h polls =>
    have hw := mem_inFlight_drain hw
    rcases h with rfl | rfl
    · exact Or.inl hw
    · exact mem_inFlight_posted hw

/-! ## Whole runs -/

theorem Sessions.Intact.put_sends (hs : s.Intact) {id limit : ℕ}
    (hsends : Sends limit id message (s.queue, session) p) (hmessage : Holds region 0 message)
    (hwritten : (s.put id (s.queue, session) region).Intact) : (s.put id p region).Intact := by
  apply hs.put
  · intro w hw hid
    apply hwritten w hw session
    rw [hid, Sessions.lookup_put]
  · intro w hw
    rcases hsends.mem_inFlight hw with hw | ⟨hid, rfl⟩
    · exact Or.inl hw
    · exact Or.inr ⟨hid, hmessage⟩

theorem intact_connect {s : Link Endpoint} (hs : s.sessions.Intact)
    (hnew : NewId s id) (stub : ConnectStubFactory) (endpoint : Endpoint)
    (metadata : UDHyperMeta) (fresh : Memory) (env : SendEnv) :
    ((linkMachine W).step s (.connect id stub endpoint metadata fresh env)).1.sessions.Intact := by
  obtain ⟨habsent, hidle⟩ := hnew
  rcases step_connect W s id stub endpoint metadata fresh env with
    ⟨_, -, hstep⟩ | ⟨region, message, p, r, hregion, hawaited, hstep | ⟨-, _, hstep⟩⟩
  · rw [hstep]
    exact hs
  · rw [hstep]
    apply hs.put
    · exact fun w hw hid => absurd hid (hidle w hw)
    · intro w hw
      rcases mem_inFlight_posted (hawaited.mem_inFlight hw) with hw | ⟨hid, rfl⟩
      · exact Or.inl hw
      · exact Or.inr ⟨hid, hregion⟩
  · rw [hstep]
    intro w hw session region' hlookup
    rcases mem_inFlight_posted (hawaited.mem_inFlight hw) with hw | ⟨hid, -⟩
    · exact hs w hw session region' hlookup
    · rw [hid] at hlookup
      exact absurd (mem_of_lookup hlookup) habsent

theorem intact_step {s : Link Endpoint} (hs : s.sessions.Intact)
    (hnew : ConnectsNew s a) (ha : Undisturbed W s a) :
    ((linkMachine W).step s a).1.sessions.Intact := by
  have hwritten := (intact_written_iff hs a).mpr ha
  cases a with
  | connect id stub endpoint metadata fresh env =>
    exact intact_connect hs hnew stub endpoint metadata fresh env
  | accept id endpoint fresh =>
    apply hs.put
    · exact fun w hw hid => absurd hid (hnew.2 w hw)
    · exact fun w hw => Or.inl hw
  | syncCall id call arg env =>
    dsimp only [linkMachine]
    rcases Sessions.syncCall_sends W s.sessions id call arg env with
      hsame | ⟨session, region, p, hlookup, hfits, hsends, hput⟩
    · rw [hsame]
      exact hs
    · rw [hput]
      rw [written_of_lookup rfl hlookup, if_pos hfits] at hwritten
      exact hs.put_sends hsends (holds_writeBytes _ _ _) hwritten
  | sendReply id output reply env =>
    cases hlookup : s.sessions.connected.lookup id with
    | none =>
      rw [step_sendReply_of_absent hlookup]
      exact hs
    | some entry =>
      obtain ⟨p, hsends, hstep⟩ := step_sendReply (W := W) hlookup output reply env
      rw [written_of_lookup rfl hlookup, ← replyRegion_outputRegion] at hwritten
      rw [hstep]
      exact hs.put_sends hsends (holds_readBytes _ _ _) hwritten
  | complete statuses =>
    have hends : Ends s.sessions.queue (s.sessions.queue.completeAll unreported statuses) :=
      ⟨statuses, rfl⟩
    exact fun w hw => hs w (hends.mem_inFlight hw)

/-- Between its post and its end a send has its bytes in the buffer of its session, before
and after every call generates its message, exactly if every message that is generated
agrees with the sends of its session that are in flight. -/
theorem buffers_intact_iff (W : Wire) (calls : List (LinkAction Endpoint))
    (h : (linkMachine W).Always ConnectsNew .new calls) :
    ((linkMachine W).Always (fun s a => s.sessions.Intact ∧ (written W s.sessions a).Intact)
        .new calls ∧ ((linkMachine W).run .new calls).sessions.Intact) ↔
      (linkMachine W).Always (Undisturbed W) .new calls := by
  have hnew : (Link.new : Link Endpoint).sessions.Intact := by
    intro w hw
    cases hw
  have hiff : (linkMachine W).Always
      (fun s a => s.sessions.Intact ∧ (written W s.sessions a).Intact) .new calls ↔
        (linkMachine W).Always (Undisturbed W) .new calls := by
    apply Machine.always_iff_of_invariant (fun s => s.sessions.Intact) _ _ hnew h
    · intro s a hs _
      rw [and_iff_right hs, intact_written_iff hs]
    · intro s a hs ha hundisturbed
      exact intact_step hs ha hundisturbed
  refine ⟨fun hgood => hiff.mp hgood.1, fun hgood => ⟨hiff.mpr hgood, ?_⟩⟩
  exact Machine.invariant (fun s => s.sessions.Intact)
    (fun s a hs ha => intact_step hs ha.1 ha.2) hnew (Machine.always_and.mpr ⟨h, hgood⟩)

/-- Two requests on session 1 and two replies on session 2, none of which has ended. -/
def pipelined : List (LinkAction ℕ) :=
  [.connect 1 ⟨1⟩ 0 default (fun _ => 0) ⟨none, [⟨[.success], none⟩]⟩,
    .accept 2 0 fun _ => 0,
    .syncCall 1 ⟨1, 3⟩ [1] ⟨none, []⟩, .syncCall 1 ⟨1, 3⟩ [2] ⟨none, []⟩,
    .sendReply 2 [5] ⟨.ok, 1⟩ ⟨none, []⟩, .sendReply 2 [6] ⟨.ok, 1⟩ ⟨none, []⟩]

/-- The same with every send ended before the next one on its session is generated. -/
def oneByOne : List (LinkAction ℕ) :=
  pipelined.flatMap fun a => [a, .complete [.success]]

/-- The adapter finds the second request in the place of the first, and the second reply in
the place of the first. -/
theorem pipelined_messages_overwritten :
    let s := ((linkMachine .packed).run .new pipelined).sessions
    let request := callBytes .packed ⟨1, 3⟩
    let reply := fun output => Wire.packed.header.encode (ReplyStubFactory.header ⟨.ok, 1⟩) ++ output
    (linkMachine .packed).Always ConnectsNew .new pipelined ∧
      s.queue.inFlight.map (fun w => (w.1.session, w.1.message)) =
        [(1, request [1]), (1, request [2]), (2, reply [5]), (2, reply [6])] ∧
      (s.connected.lookup 1).map (fun e => readBytes e.2 0 (request [1]).length) =
        some (request [2]) ∧
      (s.connected.lookup 2).map (fun e => readBytes e.2 0 (reply [5]).length) =
        some (reply [6]) ∧
      request [1] ≠ request [2] ∧ reply [5] ≠ reply [6] :=
  ⟨by decide +kernel, by decide +kernel, by decide +kernel, by decide +kernel, by decide +kernel,
    by decide +kernel⟩

theorem one_by_one_intact :
    (linkMachine .packed).Always
        (fun s a => s.sessions.Intact ∧ (written .packed s.sessions a).Intact) .new oneByOne ∧
      ((linkMachine .packed).run .new oneByOne).sessions.Intact :=
  (buffers_intact_iff .packed oneByOne (by decide +kernel)).mpr (by decide +kernel)

end Mitosis.Datagram
