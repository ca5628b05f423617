import Mathlib.Data.List.Induction
import Mathlib.Tactic.Common

/-!
# Executable machines and guarded runs

A `Machine` is a labelled transition system given by a partial function: `next s l` is the state
after the action `l`, when `l` is possible in `s`.  The nondeterminism of a concurrent system
(which process moves, which call fails, what the network does) lives in the labels, so a schedule
is a list of labels and can be executed.

* `Machine.run` : perform a list of labels.
* `Machine.ReachedBy ok s₀ s` : `s` is reached from `s₀` by steps that all meet the guard `ok` in
  the state before the step.  `Machine.Reached` is the unguarded case.
* `Machine.ReachedBy.invariant` : the invariant rule for guarded runs.
* `Machine.Reached.of_run` : an executed schedule as a proof of reachability, used to *refute*
  properties.
-/

namespace ShardedKvs

/-- A labelled transition system with states `S` and labels `L`, given by a partial function. -/
structure Machine (S L : Type*) where
  /-- The state after `l`, or `none` when `l` is not possible in `s`. -/
  next : S → L → Option S

namespace Machine

variable {S L : Type*} (M : Machine S L)

/-- Perform the labels in order; `none` as soon as one of them is not possible. -/
def run : S → List L → Option S
  | s, [] => some s
  | s, l :: ls => (M.next s l).bind fun s' => run s' ls

/-- The state `s` is reached from `s₀` by steps that all meet `ok` where they are taken. -/
inductive ReachedBy (ok : S → L → Prop) (s₀ : S) : S → Prop
  | start : ReachedBy ok s₀ s₀
  | step {s s' : S} {l : L} :
      ReachedBy ok s₀ s → ok s l → M.next s l = some s' → ReachedBy ok s₀ s'

/-- The state `s` is reached from `s₀` by some run. -/
def Reached (s₀ s : S) : Prop := M.ReachedBy (fun _ _ => True) s₀ s

variable {M}

theorem run_cons (s : S) (l : L) (ls : List L) :
    M.run s (l :: ls) = (M.next s l).bind fun s' => M.run s' ls := rfl

theorem run_append (s : S) (ls ls' : List L) :
    M.run s (ls ++ ls') = (M.run s ls).bind fun s' => M.run s' ls' := by
  induction ls generalizing s with
  | nil => rfl
  | cons l ls ih =>
    rw [List.cons_append, run_cons, run_cons]
    cases M.next s l with
    | none => rfl
    | some s' => exact ih s'

namespace ReachedBy

variable {ok ok' : S → L → Prop} {s₀ s : S}

/-- **The invariant rule.**  A predicate that holds at the start and is kept by every step that
meets the guard holds in every state of every guarded run. -/
theorem invariant {I : S → Prop} (h : M.ReachedBy ok s₀ s) (h₀ : I s₀)
    (hstep : ∀ s l s', I s → ok s l → M.next s l = some s' → I s') : I s := by
  induction h with
  | start => exact h₀
  | step _ hok hnext ih => exact hstep _ _ _ ih hok hnext

theorem weaken (h : M.ReachedBy ok s₀ s) (hle : ∀ s l, ok s l → ok' s l) :
    M.ReachedBy ok' s₀ s := by
  induction h with
  | start => exact .start
  | step _ hok hnext ih => exact .step ih (hle _ _ hok) hnext

theorem head {s₁ : S} {l : L} (hok : ok s₀ l) (hnext : M.next s₀ l = some s₁)
    (h : M.ReachedBy ok s₁ s) : M.ReachedBy ok s₀ s := by
  induction h with
  | start => exact .step .start hok hnext
  | step _ hok' hnext' ih => exact .step ih hok' hnext'

theorem trans {s₁ : S} (h : M.ReachedBy ok s₀ s₁) (h' : M.ReachedBy ok s₁ s) :
    M.ReachedBy ok s₀ s := by
  induction h' with
  | start => exact h
  | step _ hok hnext ih => exact .step ih hok hnext

/-- A run whose labels meet the guard in every state. -/
theorem of_run (ls : List L) (hok : ∀ l ∈ ls, ∀ s, ok s l) (h : M.run s₀ ls = some s) :
    M.ReachedBy ok s₀ s := by
  induction ls using List.reverseRecOn generalizing s with
  | nil => cases h; exact .start
  | append_singleton ls l ih =>
    rw [run_append, Option.bind_eq_some_iff] at h
    obtain ⟨s₁, h₁, h₂⟩ := h
    rw [run_cons, Option.bind_eq_some_iff] at h₂
    obtain ⟨s₂, hnext, hs⟩ := h₂
    cases hs
    exact .step (ih (fun l hl => hok l (by simp [hl])) h₁) (hok l (by simp) s₁) hnext

end ReachedBy

theorem Reached.of_run {s₀ s : S} (ls : List L) (h : M.run s₀ ls = some s) : M.Reached s₀ s :=
  ReachedBy.of_run ls (fun _ _ _ => trivial) h

end Machine

end ShardedKvs
