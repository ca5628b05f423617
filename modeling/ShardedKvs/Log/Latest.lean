import Mathlib.Data.List.Basic
import Mathlib.Tactic.Common

/-!
# The latest value in a log

Many states that are rebuilt from a log depend on the log only through the *last* entry that
speaks about them: a key of a store (last set or removed), a flag (last toggled).  `latest pick d`
reads such a state off a log, where `pick e` is the value the entry `e` gives it (`none` when `e`
says nothing) and `d` is the value before the log.

* `latest_append` : a log can be read in two parts.
* `latest_congr_start` : once the log says something, the value before it does not matter.
* `latest_replay` : **replaying a suffix over a later reading converges**: reading the first `t`
  entries and then replaying everything after the first `i ≤ t`, so that the entries between `i`
  and `t` are applied twice, gives the same value as reading the whole log once.
-/

namespace ShardedKvs

variable {E α : Type*}

/-- The value given by the last entry of `log` that gives one, or `d` when none does. -/
def latest (pick : E → Option α) (d : α) (log : List E) : α :=
  log.foldl (fun x e => (pick e).getD x) d

variable {pick : E → Option α} {d d' : α} {log log' : List E}

@[simp] theorem latest_cons (e : E) :
    latest pick d (e :: log) = latest pick ((pick e).getD d) log :=
  rfl

theorem latest_append : latest pick d (log ++ log') = latest pick (latest pick d log) log' :=
  List.foldl_append

theorem latest_concat (e : E) :
    latest pick d (log ++ [e]) = (pick e).getD (latest pick d log) := by
  rw [latest_append]; rfl

theorem latest_of_forall_none (h : ∀ e ∈ log, pick e = none) : latest pick d log = d := by
  induction log generalizing d with
  | nil => rfl
  | cons e log ih =>
    rw [latest_cons, h e List.mem_cons_self]
    exact ih fun e' he' => h e' (List.mem_cons_of_mem _ he')

/-- A log whose entries all repeat the value before it leaves the value alone. -/
theorem latest_of_forall_eq (h : ∀ e ∈ log, ∀ x, pick e = some x → x = d) :
    latest pick d log = d := by
  induction log with
  | nil => rfl
  | cons e log ih =>
    have he : (pick e).getD d = d := by
      cases hp : pick e with
      | none => rfl
      | some x => exact h e List.mem_cons_self x hp
    rw [latest_cons, he]
    exact ih fun e' he' => h e' (List.mem_cons_of_mem _ he')

/-- The value is the one before the log, or some entry gives it. -/
theorem latest_eq_or_exists (pick : E → Option α) (d : α) (log : List E) :
    latest pick d log = d ∨ ∃ e ∈ log, pick e = some (latest pick d log) := by
  induction log generalizing d with
  | nil => exact .inl rfl
  | cons e log ih =>
    rw [latest_cons]
    rcases ih ((pick e).getD d) with heq | ⟨e', he', hpick⟩
    · rw [heq]
      cases hp : pick e with
      | none => exact .inl rfl
      | some x => exact .inr ⟨e, List.mem_cons_self, hp⟩
    · exact .inr ⟨e', List.mem_cons_of_mem e he', hpick⟩

/-- Once an entry gives a value, the value before the log does not matter. -/
theorem latest_congr_start (h : ∃ e ∈ log, pick e ≠ none) :
    latest pick d log = latest pick d' log := by
  induction log generalizing d d' with
  | nil => obtain ⟨e, he, -⟩ := h; cases he
  | cons e log ih =>
    rw [latest_cons, latest_cons]
    by_cases hlog : ∃ e' ∈ log, pick e' ≠ none
    · exact ih hlog
    · -- then `e` itself is the entry that gives the value
      have hnone : ∀ e' ∈ log, pick e' = none := by
        intro e' he'
        by_contra hne
        exact hlog ⟨e', he', hne⟩
      rw [latest_of_forall_none hnone, latest_of_forall_none hnone]
      obtain ⟨e', he', hne⟩ := h
      rcases List.mem_cons.1 he' with rfl | hmem
      · obtain ⟨x, hx⟩ := Option.ne_none_iff_exists'.1 hne
        simp [hx]
      · exact absurd (hnone e' hmem) hne

theorem latest_take_eq {i t : ℕ} (hit : i ≤ t) (h : ∀ e ∈ log.drop i, pick e = none) :
    latest pick d (log.take t) = latest pick d (log.take i) := by
  have hsplit : log.take t = log.take i ++ (log.drop i).take (t - i) := by
    rw [← List.take_add, Nat.add_sub_cancel' hit]
  rw [hsplit, latest_append]
  exact latest_of_forall_none fun e he => h e (List.mem_of_mem_take he)

/-- **Replaying a suffix over a later reading converges.**  A value read after the first `t`
entries, with everything after the first `i ≤ t` entries replayed over it, is the value after the
whole log. -/
theorem latest_replay {i t : ℕ} (hit : i ≤ t) :
    latest pick (latest pick d (log.take t)) (log.drop i) = latest pick d log := by
  have hlog : latest pick d log = latest pick (latest pick d (log.take i)) (log.drop i) := by
    rw [← latest_append, List.take_append_drop]
  rw [hlog]
  by_cases h : ∃ e ∈ log.drop i, pick e ≠ none
  · exact latest_congr_start h
  · have hnone : ∀ e ∈ log.drop i, pick e = none := by
      intro e he
      by_contra hne
      exact h ⟨e, he, hne⟩
    rw [latest_take_eq hit hnone]

end ShardedKvs
