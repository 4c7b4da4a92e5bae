import Mitosis.Datagram.Message
import Mitosis.OsNetwork.Future

/-!
# Receiving datagrams

A receiver keeps the message buffers it has posted in the order of posting.  The
network fills them in that order, so those in which a message has arrived come
first; a message that meets no posted buffer is lost.  A poll hands the oldest
filled buffer out, and nothing but `post_recv_buf` brings it back.
-/

namespace Mitosis.Datagram

open Mitosis.OsNetwork

/-- The queue of posted buffers: those with a message, then those without. -/
structure UDReceiver where
  arrived : List UDMsg
  free : List UDMsg

/-- What a poll of the receive completion queue meets: the messages that came since
the last poll, and possibly an error of the poll. -/
structure RecvEvent where
  packets : List Packet
  pollError : Option DatapathError

namespace UDReceiver

def new : UDReceiver := ⟨[], []⟩

/-- `UDReceiver::msg_queues`. -/
def msgQueues (r : UDReceiver) : List UDMsg := r.arrived ++ r.free

/-- A message arrives in the oldest buffer without one. -/
def arrive (r : UDReceiver) (p : Packet) : UDReceiver :=
  match r.free with
  | [] => r
  | buf :: free => ⟨r.arrived ++ [buf.receive p], free⟩

def arriveAll (r : UDReceiver) (packets : List Packet) : UDReceiver :=
  packets.foldl arrive r

def poll (r : UDReceiver) (e : RecvEvent) : UDReceiver × Poll UDMsg DatapathError :=
  let r := r.arriveAll e.packets
  match e.pollError with
  | some err => (r, .error err)
  | none =>
    match r.arrived with
    | [] => (r, .ok .notReady)
    | msg :: arrived => ({ r with arrived }, .ok (.ready msg))

def postRecvBuf (r : UDReceiver) (buf : UDMsg) (error : Option DatapathError) :
    UDReceiver × Except DatapathError Unit :=
  match error with
  | some err => (r, .error err)
  | none => ({ r with free := r.free ++ [buf] }, .ok ())

/-! ## What arrives, and what a poll hands out -/

theorem arrive_spec (r : UDReceiver) (p : Packet) :
    r.arrived <+: (r.arrive p).arrived ∧ (r.arrive p).msgQueues.length = r.msgQueues.length := by
  rcases r with ⟨arrived, _ | ⟨buf, free⟩⟩
  · exact ⟨List.prefix_rfl, rfl⟩
  · refine ⟨List.prefix_append _ _, ?_⟩
    simp [arrive, msgQueues]

theorem arriveAll_spec (r : UDReceiver) (packets : List Packet) :
    r.arrived <+: (r.arriveAll packets).arrived ∧
      (r.arriveAll packets).msgQueues.length = r.msgQueues.length := by
  induction packets generalizing r with
  | nil => exact ⟨List.prefix_rfl, rfl⟩
  | cons p packets ih =>
    obtain ⟨hkept, hlength⟩ := arrive_spec r p
    obtain ⟨hkept', hlength'⟩ := ih (r.arrive p)
    exact ⟨hkept.trans hkept', hlength'.trans hlength⟩

/-- The messages that arrive when a poll meets this event. -/
def delivered (r : UDReceiver) (e : RecvEvent) : List UDMsg :=
  (r.arriveAll e.packets).arrived.drop r.arrived.length

theorem arrived_append_delivered (r : UDReceiver) (e : RecvEvent) :
    r.arrived ++ r.delivered e = (r.arriveAll e.packets).arrived := by
  obtain ⟨more, hmore⟩ := (arriveAll_spec r e.packets).1
  rw [delivered, ← hmore, List.drop_left]

theorem poll_cases (r : UDReceiver) (e : RecvEvent) :
    (∃ err, e.pollError = some err ∧ r.poll e = (r.arriveAll e.packets, .error err)) ∨
      ((r.arriveAll e.packets).arrived = [] ∧
        r.poll e = (r.arriveAll e.packets, .ok .notReady)) ∨
      ∃ msg arrived, (r.arriveAll e.packets).arrived = msg :: arrived ∧
        r.poll e = ({ r.arriveAll e.packets with arrived }, .ok (.ready msg)) := by
  unfold poll
  dsimp only
  cases e.pollError with
  | some err => exact Or.inl ⟨err, rfl, rfl⟩
  | none =>
    right
    cases harrived : (r.arriveAll e.packets).arrived with
    | nil => exact Or.inl ⟨rfl, rfl⟩
    | cons msg arrived => exact Or.inr ⟨msg, arrived, rfl, rfl⟩

def handedOut : Poll UDMsg DatapathError → Option UDMsg
  | .ok (.ready msg) => some msg
  | _ => none

theorem ready_of_handedOut {r : UDReceiver × Poll UDMsg DatapathError} {msg : UDMsg}
    (h : handedOut r.2 = some msg) : ∃ transport, r = (transport, .ok (.ready msg)) := by
  rcases r with ⟨transport, err | (msg' | _)⟩
  · cases h
  · cases h
    exact ⟨transport, rfl⟩
  · cases h

/-- Messages are handed out in the order of their arrival. -/
theorem poll_fifo (r : UDReceiver) (e : RecvEvent) :
    r.arrived ++ r.delivered e = (handedOut (r.poll e).2).toList ++ (r.poll e).1.arrived := by
  rw [arrived_append_delivered]
  rcases poll_cases r e with ⟨err, -, hpoll⟩ | ⟨-, hpoll⟩ | ⟨msg, arrived, harrived, hpoll⟩
  · rw [hpoll]
    rfl
  · rw [hpoll]
    rfl
  · rw [hpoll, harrived]
    rfl

theorem length_poll (r : UDReceiver) (e : RecvEvent) :
    (r.poll e).1.msgQueues.length + (handedOut (r.poll e).2).toList.length =
      r.msgQueues.length := by
  rw [← (arriveAll_spec r e.packets).2]
  rcases poll_cases r e with ⟨err, -, hpoll⟩ | ⟨-, hpoll⟩ | ⟨msg, arrived, harrived, hpoll⟩
  · rw [hpoll]
    rfl
  · rw [hpoll]
    rfl
  · rw [hpoll, msgQueues, msgQueues, harrived]
    simp [handedOut]

theorem postRecvBuf_none (r : UDReceiver) (buf : UDMsg) :
    r.postRecvBuf buf none = ({ r with free := r.free ++ [buf] }, .ok ()) := rfl

theorem postRecvBuf_some (r : UDReceiver) (buf : UDMsg) (err : DatapathError) :
    r.postRecvBuf buf (some err) = (r, .error err) := rfl

@[simp] theorem arrived_postRecvBuf (r : UDReceiver) (buf : UDMsg) (error : Option DatapathError) :
    (r.postRecvBuf buf error).1.arrived = r.arrived := by
  cases error <;> rfl

theorem length_postRecvBuf_none (r : UDReceiver) (buf : UDMsg) :
    (r.postRecvBuf buf none).1.msgQueues.length = r.msgQueues.length + 1 := by
  simp [postRecvBuf, msgQueues]
  omega

end UDReceiver

end Mitosis.Datagram
