import Mathlib.Tactic.Common

/-!
# Programs that their calls can stop

A program that works on a disk or a cluster is a sequence of calls.  Each of them may end it, by an
error that is handed on or by a crash, and everything that was done before stays done.
`Program ε σ α` is such a program over the state `σ`: it returns a value or stops with an `ε`, and
it leaves a state behind either way.

* `CallResult`, `call` : a call that succeeds, fails or crashes, with or without its effect.
* `final` : the state that is left behind.
* `bind_eq_ok_iff`, `final_bind` : programs are taken apart at their calls.
-/

namespace ShardedKvs

/-- A program that returns an `α` or stops with an `ε`, on a state that survives both. -/
abbrev Program (ε σ α : Type) := EStateM ε σ α

namespace Program

/-- How a call ends.  One that fails or crashes may have had its effect by then. -/
inductive CallResult where
  | ok
  | failed (err : String) (done : Bool)
  | crashed (done : Bool)
  deriving DecidableEq

/-- Why a program has stopped. -/
inductive Stop where
  | failed (err : String)
  | crashed
  deriving DecidableEq

/-- The call has its effect. -/
def CallResult.effective : CallResult → Bool
  | .ok => true
  | .failed _ done => done
  | .crashed done => done

variable {ε σ α β : Type}

/-- A call with an effect on the state; its error is handed on behind a message. -/
def call (o : CallResult) (message : String) (effect : σ → σ) : Program Stop σ Unit := fun s =>
  let s' := if o.effective then effect s else s
  match o with
  | .ok => .ok () s'
  | .failed err _ => .error (.failed (message ++ err)) s'
  | .crashed _ => .error .crashed s'

/-- The state that a program leaves behind. -/
def final (x : Program ε σ α) (s : σ) : σ :=
  match x s with
  | .ok _ s' => s'
  | .error _ s' => s'

theorem bind_eq_ok_iff {x : Program ε σ α} {f : α → Program ε σ β} {s s'' : σ} {b : β} :
    (x >>= f) s = .ok b s'' ↔ ∃ a s', x s = .ok a s' ∧ f a s' = .ok b s'' := by
  change EStateM.bind x f s = _ ↔ _
  unfold EStateM.bind
  cases x s with
  | ok a s' =>
    constructor
    · intro h
      exact ⟨a, s', rfl, h⟩
    · rintro ⟨a', t, h, h'⟩
      cases h
      exact h'
  | error e s' =>
    constructor
    · intro h
      cases h
    · rintro ⟨a', t, h, -⟩
      cases h

theorem final_bind (x : Program ε σ α) (f : α → Program ε σ β) (s : σ) :
    final (x >>= f) s = match x s with
      | .ok a s' => final (f a) s'
      | .error _ s' => s' := by
  change (match EStateM.bind x f s with
    | .ok _ s' => s'
    | .error _ s' => s') = _
  unfold EStateM.bind final
  cases x s <;> rfl

/-- A program goes on after a call only if the call succeeds. -/
theorem final_call_bind (o : CallResult) (message : String) (effect : σ → σ)
    (f : Unit → Program Stop σ β) (s : σ) :
    final (call o message effect >>= f) s =
      if o = .ok then final (f ()) (effect s) else if o.effective then effect s else s := by
  rw [final_bind]
  cases o <;> rfl

theorem final_call (o : CallResult) (message : String) (effect : σ → σ) (s : σ) :
    final (call o message effect) s = if o.effective then effect s else s := by
  cases o <;> rfl

end Program

end ShardedKvs
