import Mathlib.Data.Int.Notation
import Mathlib.Tactic.Common

/-!
# Futures, timeouts and blocking

A future is polled until it is ready or fails.  What a poll sees of the outside
world (completions that arrived, the clock) is an input of that poll, so a
blocking wait runs over the list of these inputs; it has no result when the
list ends first, which is a wait that has not returned yet.
-/

namespace Mitosis.OsNetwork

variable {σ Env α ε : Type}

inductive Async (α : Type) where
  | ready (value : α)
  | notReady
deriving DecidableEq, Repr

abbrev Poll (α ε : Type) := Except ε (Async α)

/-- Block on the future until it is ready or error. -/
def blockOn (poll : σ → Env → σ × Poll α ε) :
    σ → List Env → σ × Option (Except ε α)
  | s, [] => (s, none)
  | s, e :: es =>
    match poll s e with
    | (s', .ok (.ready v)) => (s', some (.ok v))
    | (s', .ok .notReady) => blockOn poll s' es
    | (s', .error err) => (s', some (.error err))

/-- A delay is over once the time since its creation reaches its length. -/
def Delay.poll (waitUsec passed : ℤ) : Poll ℤ Unit :=
  if passed ≥ waitUsec then .ok (.ready passed) else .ok .notReady

inductive TimeoutError (ε : Type) where
  | inner (error : ε)
  | elapsed
deriving DecidableEq, Repr

/-- Poll the wrapped future first and look at the timer only when it is not
ready.  The second component of the input is the time on the timer. -/
def Timeout.poll (value : σ → Env → σ × Poll α ε) (timeoutUsec : ℤ) (s : σ)
    (e : Env × ℤ) : σ × Poll α (TimeoutError ε) :=
  match value s e.1 with
  | (s', .ok (.ready v)) => (s', .ok (.ready v))
  | (s', .error err) => (s', .error (.inner err))
  | (s', .ok .notReady) =>
    match Delay.poll timeoutUsec e.2 with
    | .ok (.ready _) => (s', .error .elapsed)
    | _ => (s', .ok .notReady)

/-! ## Rules for waiting -/

/-- A poll keeps `I` while the future is not ready and establishes `Q` when it
ends. -/
def Polled (I : σ → Prop) (Q : σ → Except ε α → Prop) : σ × Poll α ε → Prop
  | (s, .ok .notReady) => I s
  | (s, .ok (.ready v)) => Q s (.ok v)
  | (s, .error err) => Q s (.error err)

/-- A wait either returned with `Q` or is still going on with `I`. -/
def Waited (I : σ → Prop) (Q : σ → Except ε α → Prop) :
    σ × Option (Except ε α) → Prop
  | (s, none) => I s
  | (s, some r) => Q s r

variable {poll : σ → Env → σ × Poll α ε} {I : σ → Prop} {Q : σ → Except ε α → Prop} {s : σ}
  {w : σ × Option (Except ε α)} {value : σ → Env → σ × Poll α ε} {timeoutUsec : ℤ} {e : Env × ℤ}

/-- What every poll of a wait keeps while it is not ready holds throughout it. -/
theorem waited_blockOn_of_mem {es : List Env}
    (hpoll : ∀ s, ∀ e ∈ es, I s → Polled I Q (poll s e)) (hs : I s) :
    Waited I Q (blockOn poll s es) := by
  induction es generalizing s with
  | nil => exact hs
  | cons e es ih =>
    have h := hpoll s e List.mem_cons_self hs
    unfold blockOn
    rcases hp : poll s e with ⟨s', _ | (v | _)⟩
    · simpa [hp, Polled, Waited] using h
    · simpa [hp, Polled, Waited] using h
    · rw [hp] at h
      exact ih (fun s e he => hpoll s e (List.mem_cons_of_mem _ he)) h

theorem waited_blockOn (hpoll : ∀ s e, I s → Polled I Q (poll s e))
    (es : List Env) (hs : I s) : Waited I Q (blockOn poll s es) :=
  waited_blockOn_of_mem (fun s e _ => hpoll s e) hs

theorem exists_blockOn_result {last : Env}
    (hlast : ∀ s s', poll s last ≠ (s', .ok .notReady)) (es : List Env) (s : σ) :
    ∃ s' r, blockOn poll s (es ++ [last]) = (s', some r) := by
  induction es generalizing s with
  | nil =>
    rw [List.nil_append, blockOn]
    rcases hp : poll s last with ⟨s', err | (v | _)⟩
    · exact ⟨s', .error err, rfl⟩
    · exact ⟨s', .ok v, rfl⟩
    · exact absurd hp (hlast s s')
  | cons e es ih =>
    rw [List.cons_append, blockOn]
    rcases hp : poll s e with ⟨s', err | (v | _)⟩
    · exact ⟨s', .error err, rfl⟩
    · exact ⟨s', .ok v, rfl⟩
    · exact ih s'

theorem Waited.result (h : Waited I Q w) {r : Except ε α}
    (hr : w.2 = some r) : Q w.1 r := by
  rcases w with ⟨s, _ | r'⟩
  · cases hr
  · cases hr
    exact h

theorem Waited.state {I J : σ → Prop}
    (h : Waited I (fun s _ => J s) w) (hIJ : ∀ s, I s → J s) : J w.1 := by
  rcases w with ⟨s, _ | r⟩
  · exact hIJ s h
  · exact h

theorem Waited.map {β δ : Type} {Q : σ → Except δ β → Prop}
    {f : Except ε α → Except δ β}
    (h : Waited I (fun s r => Q s (f r)) w) : Waited I Q (w.1, w.2.map f) := by
  rcases w with ⟨s, _ | r⟩
  · exact h
  · exact h

theorem timeout_ne_notReady (hpassed : e.2 ≥ timeoutUsec) (s s' : σ) :
    Timeout.poll value timeoutUsec s e ≠ (s', .ok .notReady) := by
  unfold Timeout.poll
  rcases value s e.1 with ⟨s'', err | (v | _)⟩
  · simp
  · simp
  · simp [Delay.poll, hpassed]

theorem polled_timeout {R : σ → Except (TimeoutError ε) α → Prop}
    (h : Polled I Q (value s e.1))
    (hready : ∀ s v, Q s (.ok v) → R s (.ok v))
    (hinner : ∀ s err, Q s (.error err) → R s (.error (.inner err)))
    (helapsed : ∀ s, I s → R s (.error .elapsed)) :
    Polled I R (Timeout.poll value timeoutUsec s e) := by
  unfold Timeout.poll
  rcases hv : value s e.1 with ⟨s', err | (v | _)⟩
  · rw [hv] at h
    exact hinner s' err h
  · rw [hv] at h
    exact hready s' v h
  · rw [hv] at h
    by_cases hpassed : e.2 ≥ timeoutUsec
    · simpa [Delay.poll, hpassed, Polled] using helapsed s' h
    · simpa [Delay.poll, hpassed, Polled] using h

/-! ## Two waits on the same inputs -/

section Alike

variable {τ β δ γ : Type} {I : σ → Prop} {f : σ → τ} {g : α → γ} {g' : β → γ}

/-- How a poll ends: not at all, with an error, or with a value of which `g` is seen. -/
def endOf (g : α → γ) : Poll α ε → Option (Option γ)
  | .ok .notReady => none
  | .ok (.ready v) => some (some (g v))
  | .error _ => some none

/-- The second poll ends as the first one does, in the state that `f` makes of it. -/
structure PollsAlike (I : σ → Prop) (f : σ → τ) (g : α → γ) (g' : β → γ)
    (p : σ × Poll α ε) (p' : τ × Poll β δ) : Prop where
  inv : I p.1
  state : p'.1 = f p.1
  result : endOf g' p'.2 = endOf g p.2

theorem PollsAlike.cases {p : σ × Poll α ε} {p' : τ × Poll β δ}
    (h : PollsAlike I f g g' p p') :
    ∃ s, I s ∧ ((p = (s, .ok .notReady) ∧ p' = (f s, .ok .notReady)) ∨
      (∃ v v', g' v' = g v ∧ p = (s, .ok (.ready v)) ∧ p' = (f s, .ok (.ready v'))) ∨
      ∃ err err', p = (s, .error err) ∧ p' = (f s, .error err')) := by
  obtain ⟨s, r⟩ := p
  obtain ⟨t, r'⟩ := p'
  obtain ⟨hI, rfl : t = f s, hr : endOf g' r' = endOf g r⟩ := h
  refine ⟨s, hI, ?_⟩
  rcases r with err | (v | _) <;> rcases r' with err' | (v' | _) <;> simp [endOf] at hr ⊢
  exact hr

theorem blockOn_alike {poll' : τ → Env → τ × Poll β δ}
    (hpoll : ∀ s e, I s → PollsAlike I f g g' (poll s e) (poll' (f s) e)) (es : List Env)
    (hs : I s) :
    ∃ s' r r', blockOn poll s es = (s', r) ∧ blockOn poll' (f s) es = (f s', r') ∧ I s' ∧
      r'.map Except.isOk = r.map Except.isOk := by
  induction es generalizing s with
  | nil => exact ⟨s, none, none, rfl, rfl, hs, rfl⟩
  | cons e es ih =>
    unfold blockOn
    obtain ⟨s', hI, ⟨hp, hp'⟩ | ⟨v, v', -, hp, hp'⟩ | ⟨err, err', hp, hp'⟩⟩ := (hpoll s e hs).cases
    · rw [hp, hp']
      exact ih hI
    · rw [hp, hp']
      exact ⟨s', _, _, rfl, rfl, hI, rfl⟩
    · rw [hp, hp']
      exact ⟨s', _, _, rfl, rfl, hI, rfl⟩

theorem timeout_alike {value' : τ → Env → τ × Poll β δ}
    (h : PollsAlike I f g g' (value s e.1) (value' (f s) e.1)) :
    PollsAlike I f g g' (Timeout.poll value timeoutUsec s e)
      (Timeout.poll value' timeoutUsec (f s) e) := by
  unfold Timeout.poll
  obtain ⟨s', hI, ⟨hp, hp'⟩ | ⟨v, v', hv, hp, hp'⟩ | ⟨err, err', hp, hp'⟩⟩ := h.cases
  · rw [hp, hp']
    dsimp only
    split
    · exact ⟨hI, rfl, rfl⟩
    · exact ⟨hI, rfl, rfl⟩
  · rw [hp, hp']
    exact ⟨hI, rfl, congrArg (some ∘ some) hv⟩
  · rw [hp, hp']
    exact ⟨hI, rfl, rfl⟩

end Alike

end Mitosis.OsNetwork
