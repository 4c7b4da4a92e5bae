import Mathlib.Logic.Function.Basic
import Mitosis.Support.Machine

/-!
# Operations under a lock

An operation on a shared state may take several steps: it is started, and then polled until it
has a result.  The outside world changes the state at any time.  If every operation holds one
lock from before its start until it has its result, then the operations of any number of
threads return what they would in a run in which each of them is one step.  Without a lock
there are more runs.
-/

namespace Mitosis.Support

/-- An operation by its steps.  The start gives a token, and the result if the operation ends
at once. -/
structure Stepped (σ Req Tok Res Env Tick : Type) where
  tick : σ → Tick → σ
  start : σ → Req → σ × Tok × Option Res
  poll : σ → Env → σ × Option Res

/-- What a thread has got. -/
structure Return (Req Tok Res : Type) where
  thread : ℕ
  req : Req
  tok : Tok
  res : Res
deriving DecidableEq

variable {σ Req Tok Res Env Tick : Type}

namespace Stepped

/-- Polls, each with what happens before it, until there is a result. -/
def polls (D : Stepped σ Req Tok Res Env Tick) : σ → List (List Tick × Env) → σ × Option Res
  | s, [] => (s, none)
  | s, (ts, e) :: rest =>
    match D.poll (ts.foldl D.tick s) e with
    | (s', some r) => (s', some r)
    | (s', none) => polls D s' rest

/-- An operation as a whole. -/
def call (D : Stepped σ Req Tok Res Env Tick) (s : σ) (req : Req) (es : List (List Tick × Env)) :
    σ × Tok × Option Res :=
  match D.start s req with
  | (s', tok, some r) => (s', tok, some r)
  | (s', tok, none) => ((D.polls s' es).1, tok, (D.polls s' es).2)

theorem polls_concat (D : Stepped σ Req Tok Res Env Tick) {s s' : σ}
    {es : List (List Tick × Env)} (h : D.polls s es = (s', none)) (ts : List Tick) (e : Env) :
    D.polls s (es ++ [(ts, e)]) = D.poll (ts.foldl D.tick s') e := by
  induction es generalizing s with
  | nil =>
    cases h
    rw [List.nil_append, polls]
    rcases D.poll _ e with ⟨s'', _ | r⟩ <;> rfl
  | cons x es ih =>
    obtain ⟨ts', e'⟩ := x
    rw [polls] at h
    rw [List.cons_append, polls]
    rcases hpoll : D.poll (ts'.foldl D.tick s) e' with ⟨s'', _ | r⟩
    · rw [hpoll] at h
      exact ih h
    · rw [hpoll] at h
      cases h

theorem call_concat (D : Stepped σ Req Tok Res Env Tick) {s s' : σ} {req : Req} {tok : Tok}
    {es : List (List Tick × Env)} (h : D.call s req es = (s', tok, none)) (ts : List Tick)
    (e : Env) :
    D.call s req (es ++ [(ts, e)]) =
      ((D.poll (ts.foldl D.tick s') e).1, tok, (D.poll (ts.foldl D.tick s') e).2) := by
  unfold call at h ⊢
  rcases hstart : D.start s req with ⟨s₁, tok', _ | r⟩
  · rw [hstart] at h
    dsimp only at h ⊢
    obtain ⟨rfl, rfl, hres⟩ : (D.polls s₁ es).1 = s' ∧ tok' = tok ∧ (D.polls s₁ es).2 = none := by
      simpa [Prod.ext_iff] using h
    rw [polls_concat D (Prod.ext_iff.mpr ⟨rfl, hres⟩)]
  · rw [hstart] at h
    cases h

end Stepped

/-! ## The two machines -/

/-- A step of the outside world, or a whole operation of a thread. -/
inductive AtomicAction (Req Env Tick : Type) where
  | tick (t : Tick)
  | call (thread : ℕ) (req : Req) (es : List (List Tick × Env))

/-- Operations one after another. -/
def atomicMachine (D : Stepped σ Req Tok Res Env Tick) :
    Machine σ (AtomicAction Req Env Tick) (Option (Return Req Tok Res)) where
  step s
    | .tick t => (D.tick s t, none)
    | .call thread req es =>
      ((D.call s req es).1, (D.call s req es).2.2.map fun r =>
        ⟨thread, req, (D.call s req es).2.1, r⟩)

/-- The thread that has the lock, and the token of its operation once it is started. -/
structure Holder (Req Tok : Type) where
  thread : ℕ
  req : Req
  started : Option Tok

structure LockedState (σ Req Tok : Type) where
  shared : σ
  holder : Option (Holder Req Tok)
  waiting : ℕ → Option Req

def LockedState.init (s : σ) : LockedState σ Req Tok := ⟨s, none, fun _ => none⟩

/-- A thread asks for the lock, gets it if it is free, starts, or polls. -/
inductive LockedAction (Req Env Tick : Type) where
  | call (thread : ℕ) (req : Req)
  | acquire (thread : ℕ)
  | start
  | poll (e : Env)
  | tick (t : Tick)

/-- The steps of all threads, in any order.  Only the holder of the lock starts and polls; it
gives the lock back with its result. -/
def lockedMachine (D : Stepped σ Req Tok Res Env Tick) :
    Machine (LockedState σ Req Tok) (LockedAction Req Env Tick) (Option (Return Req Tok Res)) where
  step s
    | .call thread req => ({ s with waiting := Function.update s.waiting thread (some req) }, none)
    | .acquire thread =>
      match s.holder, s.waiting thread with
      | none, some req =>
        (⟨s.shared, some ⟨thread, req, none⟩, Function.update s.waiting thread none⟩, none)
      | _, _ => (s, none)
    | .start =>
      match s.holder with
      | some ⟨thread, req, none⟩ =>
        match D.start s.shared req with
        | (s', tok, some r) => (⟨s', none, s.waiting⟩, some ⟨thread, req, tok, r⟩)
        | (s', tok, none) => (⟨s', some ⟨thread, req, some tok⟩, s.waiting⟩, none)
      | _ => (s, none)
    | .poll e =>
      match s.holder with
      | some ⟨thread, req, some tok⟩ =>
        match D.poll s.shared e with
        | (s', some r) => (⟨s', none, s.waiting⟩, some ⟨thread, req, tok, r⟩)
        | (s', none) => (⟨s', s.holder, s.waiting⟩, none)
      | _ => (s, none)
    | .tick t => ({ s with shared := D.tick s.shared t }, none)

/-- The calls of the threads, with the tokens of those that are started. -/
structure UnlockedState (σ Req Tok : Type) where
  shared : σ
  calls : ℕ → Option (Req × Option Tok)

def UnlockedState.init (s : σ) : UnlockedState σ Req Tok := ⟨s, fun _ => none⟩

/-- A thread calls, starts, or polls. -/
inductive UnlockedAction (Req Env Tick : Type) where
  | call (thread : ℕ) (req : Req)
  | start (thread : ℕ)
  | poll (thread : ℕ) (e : Env)
  | tick (t : Tick)

/-- The same steps where no lock is taken. -/
def unlockedMachine (D : Stepped σ Req Tok Res Env Tick) :
    Machine (UnlockedState σ Req Tok) (UnlockedAction Req Env Tick)
      (Option (Return Req Tok Res)) where
  step s
    | .call thread req =>
      match s.calls thread with
      | none => (⟨s.shared, Function.update s.calls thread (some (req, none))⟩, none)
      | some _ => (s, none)
    | .start thread =>
      match s.calls thread with
      | some (req, none) =>
        match D.start s.shared req with
        | (s', tok, some r) =>
          (⟨s', Function.update s.calls thread none⟩, some ⟨thread, req, tok, r⟩)
        | (s', tok, none) =>
          (⟨s', Function.update s.calls thread (some (req, some tok))⟩, none)
      | _ => (s, none)
    | .poll thread e =>
      match s.calls thread with
      | some (req, some tok) =>
        match D.poll s.shared e with
        | (s', some r) =>
          (⟨s', Function.update s.calls thread none⟩, some ⟨thread, req, tok, r⟩)
        | (s', none) => (⟨s', s.calls⟩, none)
      | _ => (s, none)
    | .tick t => ({ s with shared := D.tick s.shared t }, none)

/-! ## The operations in the order of their returns -/

/-- The state is that of a run of whole operations, with the operation of the holder begun. -/
def Serializes (D : Stepped σ Req Tok Res Env Tick) (s : LockedState σ Req Tok) (t : σ) : Prop :=
  match s.holder with
  | some ⟨_, req, some tok⟩ => ∃ (es : List (List Tick × Env)) (ts : List Tick) (s' : σ),
      D.call t req es = (s', tok, none) ∧ s.shared = ts.foldl D.tick s'
  | _ => s.shared = t

section Steps

variable {D : Stepped σ Req Tok Res Env Tick} {s : LockedState σ Req Tok} {t : σ}

/-- A step is no step of the run of whole operations, or one: the outside world's, or the
operation that returns. -/
def SerialStep (D : Stepped σ Req Tok Res Env Tick)
    (next : LockedState σ Req Tok × Option (Return Req Tok Res)) (t : σ) : Prop :=
  (Serializes D next.1 t ∧ next.2 = none) ∨
    ∃ b, Serializes D next.1 ((atomicMachine D).step t b).1 ∧ ((atomicMachine D).step t b).2 = next.2

theorem serialStep_tick (h : Serializes D s t) (k : Tick) :
    SerialStep D ((lockedMachine D).step s (.tick k)) t := by
  obtain ⟨shared, _ | ⟨thread, req, _ | tok⟩, waiting⟩ := s
  · exact .inr ⟨.tick k, congrArg (D.tick · k) h, rfl⟩
  · exact .inr ⟨.tick k, congrArg (D.tick · k) h, rfl⟩
  · obtain ⟨es, ts, s', hcall, hshared⟩ := h
    refine .inl ⟨⟨es, ts ++ [k], s', hcall, ?_⟩, rfl⟩
    rw [List.foldl_append, ← hshared]
    rfl

theorem serialStep_acquire (h : Serializes D s t) (thread : ℕ) :
    SerialStep D ((lockedMachine D).step s (.acquire thread)) t := by
  obtain ⟨shared, holder, waiting⟩ := s
  dsimp only [lockedMachine]
  cases holder with
  | some holder => exact .inl ⟨h, rfl⟩
  | none =>
    cases waiting thread with
    | none => exact .inl ⟨h, rfl⟩
    | some req => exact .inl ⟨h, rfl⟩

theorem serialStep_start (h : Serializes D s t) :
    SerialStep D ((lockedMachine D).step s .start) t := by
  obtain ⟨shared, _ | ⟨thread, req, _ | tok⟩, waiting⟩ := s
  · exact .inl ⟨h, rfl⟩
  · obtain rfl : shared = t := h
    dsimp only [lockedMachine]
    rcases hstart : D.start shared req with ⟨s', tok, _ | r⟩
    · refine .inl ⟨⟨[], [], s', ?_, rfl⟩, rfl⟩
      rw [Stepped.call, hstart]
      rfl
    · have hcall : D.call shared req [] = (s', tok, some r) := by rw [Stepped.call, hstart]
      refine .inr ⟨.call thread req [], (congrArg Prod.fst hcall).symm, ?_⟩
      dsimp only [atomicMachine]
      rw [hcall]
      rfl
  · exact .inl ⟨h, rfl⟩

theorem serialStep_poll (h : Serializes D s t) (e : Env) :
    SerialStep D ((lockedMachine D).step s (.poll e)) t := by
  obtain ⟨shared, _ | ⟨thread, req, _ | tok⟩, waiting⟩ := s
  · exact .inl ⟨h, rfl⟩
  · exact .inl ⟨h, rfl⟩
  · obtain ⟨es, ts, s', hcall, rfl⟩ := h
    have hmore := D.call_concat hcall ts e
    dsimp only [lockedMachine]
    rcases hpoll : D.poll (ts.foldl D.tick s') e with ⟨s'', _ | r⟩ <;> rw [hpoll] at hmore
    · exact .inl ⟨⟨es ++ [(ts, e)], [], s'', hmore, rfl⟩, rfl⟩
    · refine .inr ⟨.call thread req (es ++ [(ts, e)]), (congrArg Prod.fst hmore).symm, ?_⟩
      dsimp only [atomicMachine]
      rw [hmore]
      rfl

theorem serialStep (h : Serializes D s t) (a : LockedAction Req Env Tick) :
    SerialStep D ((lockedMachine D).step s a) t := by
  cases a with
  | call thread req => exact .inl ⟨h, rfl⟩
  | acquire thread => exact serialStep_acquire h thread
  | start => exact serialStep_start h
  | poll e => exact serialStep_poll h e
  | tick k => exact serialStep_tick h k

end Steps

/-- The steps of all threads, in any order, return what whole operations return, one after
another. -/
theorem exists_serialization (D : Stepped σ Req Tok Res Env Tick) (s : σ)
    (as : List (LockedAction Req Env Tick)) :
    ∃ bs, Serializes D ((lockedMachine D).run (.init s) as) ((atomicMachine D).run s bs) ∧
      ((atomicMachine D).trace s bs).filterMap Prod.snd =
        ((lockedMachine D).trace (.init s) as).filterMap Prod.snd := by
  refine Machine.trace_induction (M := lockedMachine D) (s := LockedState.init s)
    (fun s' tr => ∃ bs, Serializes D s' ((atomicMachine D).run s bs) ∧
      ((atomicMachine D).trace s bs).filterMap Prod.snd = tr.filterMap Prod.snd)
    ⟨[], rfl, rfl⟩ ?_ as
  rintro s' tr a ⟨bs, hs, htr⟩
  obtain ⟨hsame, hnone⟩ | ⟨b, hnext, hout⟩ := serialStep hs a
  · exact ⟨bs, hsame, by rw [htr, List.filterMap_append, hnone]; simp⟩
  · refine ⟨bs ++ [b], ?_, ?_⟩
    · rwa [Machine.run_concat]
    · rw [Machine.trace_concat, List.filterMap_append, List.filterMap_append, htr, hout]
      rfl

end Mitosis.Support
