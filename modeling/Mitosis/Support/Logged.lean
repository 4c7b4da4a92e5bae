import Mitosis.Support.Outcome

/-!
# Computations that keep a log

A computation that may stop early, together with the list of what it has done
until then.  Forgetting the log gives the plain computation; the log itself is
reasoned about with a postcondition, which only a computation that does not
stop has to meet.
-/

namespace Mitosis.Support

/-- An outcome and the log of what led to it. -/
structure Logged (ε α : Type) where
  outcome : Outcome α
  log : List ε

namespace Logged

variable {ε α β : Type}

/-- A computation that logs nothing. -/
def lift (o : Outcome α) : Logged ε α := ⟨o, []⟩

def bind (x : Logged ε α) (f : α → Logged ε β) : Logged ε β :=
  match x.outcome with
  | .ok a => ⟨(f a).outcome, x.log ++ (f a).log⟩
  | .error e => ⟨.error e, x.log⟩

instance : Monad (Logged ε) where
  pure a := lift (.ok a)
  bind := bind

@[simp] theorem outcome_lift (o : Outcome α) : (lift o : Logged ε α).outcome = o := rfl

@[simp] theorem outcome_bind (x : Logged ε α) (f : α → Logged ε β) :
    (x >>= f).outcome = x.outcome >>= fun a => (f a).outcome := by
  change (bind x f).outcome = _
  unfold bind
  cases x.outcome <;> rfl

theorem ok_bind (a : α) (l : List ε) (f : α → Logged ε β) :
    ((⟨.ok a, l⟩ : Logged ε α) >>= f) = ⟨(f a).outcome, l ++ (f a).log⟩ := rfl

theorem error_bind (e : Stop) (l : List ε) (f : α → Logged ε β) :
    ((⟨.error e, l⟩ : Logged ε α) >>= f) = ⟨.error e, l⟩ := rfl

/-- Every entry of the log is admitted, and a value that is produced satisfies
the postcondition. -/
structure Meets (x : Logged ε α) (ok : ε → Prop) (post : α → Prop) : Prop where
  log : ∀ e ∈ x.log, ok e
  value : ∀ a, x.outcome = .ok a → post a

variable {ok : ε → Prop}

theorem meets_lift {o : Outcome α} {post : α → Prop} (h : ∀ a, o = .ok a → post a) :
    (lift o : Logged ε α).Meets ok post where
  log e he := by cases he
  value := h

theorem meets_lift_true (o : Outcome α) : (lift o : Logged ε α).Meets ok fun _ => True :=
  meets_lift fun _ _ => trivial

theorem Meets.bind {x : Logged ε α} {f : α → Logged ε β} {mid : α → Prop} {post : β → Prop}
    (hx : x.Meets ok mid) (hf : ∀ a, mid a → (f a).Meets ok post) :
    (x >>= f).Meets ok post := by
  change (Logged.bind x f).Meets ok post
  unfold Logged.bind
  cases hvalue : x.outcome with
  | error e =>
    constructor
    · exact hx.log
    · intro b hb
      cases hb
  | ok a =>
    have hrest := hf a (hx.value a hvalue)
    constructor
    · intro e he
      rcases List.mem_append.mp he with he | he
      · exact hx.log e he
      · exact hrest.log e he
    · exact hrest.value

theorem Meets.mono {x : Logged ε α} {post post' : α → Prop} (hx : x.Meets ok post)
    (h : ∀ a, post a → post' a) : x.Meets ok post' :=
  ⟨hx.log, fun a ha => h a (hx.value a ha)⟩

end Logged

end Mitosis.Support
