import ShardedKvs.KvStore.Snapshot

/-!
# The write flag across snapshots

`Persist` writes the flag `writesEnabled` into the snapshot, but `Restore` does not read it back: a
replica that restores a snapshot keeps whatever flag it had.  This file says exactly when the flags
of the replicas nevertheless follow the log.

* `Follower` : a replica that works its way through a log, by applying the next entry or by
  restoring a snapshot filed under some index.
* `FlagsAgree` : at every index that they reach, all replicas have the flag of the last toggle at
  or before that index.
* `flagsAgree_iff` : **they do iff no restore changes the flag**, that is, iff every restore goes
  between two indices at which the log has the same flag.
* `not_flagsAgree_of_toggle` : a replica that restores a snapshot taken after writes were disabled
  believes that they are enabled.
-/

namespace ShardedKvs

/-- A replica on its way through a log. -/
structure Follower where
  /-- The index of the last entry that its state covers. -/
  applied : ℕ
  node : Node

/-- How a replica gets to another index. -/
inductive CatchUp where
  /-- `Apply` of the next entry. -/
  | apply
  /-- `Restore` of a snapshot filed under index `m`, at startup or later. -/
  | restore (m : ℕ) (snap : KVFSMSnapshot)

namespace Follower

/-- A replica that has just been opened. -/
def fresh : Follower := ⟨0, Node.opened⟩

/-- One step through `log`. -/
def step (log : List KVFSMLogEntry) (f : Follower) : CatchUp → Option Follower
  | .apply => log[f.applied]?.bind fun e => (f.node.apply e).map fun n => ⟨f.applied + 1, n⟩
  | .restore m snap => if m ≤ log.length then some ⟨m, f.node.restore snap⟩ else none

/-- The ways of a replica through `log`. -/
def machine (log : List KVFSMLogEntry) : Machine Follower CatchUp := ⟨step log⟩

end Follower

/-- The committed flag after the first `n` entries. -/
def flagAt (log : List KVFSMLogEntry) (n : ℕ) : Bool := flagOf (log.take n)

variable {R : Type*}

/-- Whenever two of the replicas have reached the same index, their flags are equal, and are the
flag of the last toggle at or before that index. -/
def FlagsAgree (log : List KVFSMLogEntry) (hist : R → List CatchUp) : Prop :=
  ∀ r₁ r₂ p₁ p₂ f₁ f₂, p₁ <+: hist r₁ → p₂ <+: hist r₂ →
    (Follower.machine log).run .fresh p₁ = some f₁ →
    (Follower.machine log).run .fresh p₂ = some f₂ → f₁.applied = f₂.applied →
    f₁.node.fsm.writesEnabled = f₂.node.fsm.writesEnabled ∧
      f₁.node.fsm.writesEnabled = flagAt log f₁.applied

/-- No restore goes between two indices at which the log has different flags. -/
def RestoresKeepFlag (log : List KVFSMLogEntry) (hist : R → List CatchUp) : Prop :=
  ∀ r p m snap f f', p ++ [.restore m snap] <+: hist r →
    (Follower.machine log).run .fresh p = some f →
    (Follower.machine log).run .fresh (p ++ [.restore m snap]) = some f' →
    flagAt log f.applied = flagAt log m

variable {log : List KVFSMLogEntry} {f f' : Follower}

theorem flagAt_succ {i : ℕ} {e : KVFSMLogEntry} (he : log[i]? = some e) :
    flagAt log (i + 1) = e.pickFlag.getD (flagAt log i) := by
  rw [flagAt, List.take_add_one, he]
  exact latest_concat e

theorem Follower.flag_apply (h : f.step log .apply = some f')
    (hf : f.node.fsm.writesEnabled = flagAt log f.applied) :
    f'.node.fsm.writesEnabled = flagAt log f'.applied := by
  obtain ⟨e, he, hn⟩ := Option.bind_eq_some_iff.1 h
  obtain ⟨n, happ, hf'⟩ := Option.map_eq_some_iff.1 hn
  subst hf'
  rw [(Node.applied_of_apply happ).flag, hf, flagAt_succ he]

theorem Follower.restore_eq {m : ℕ} {snap : KVFSMSnapshot}
    (h : f.step log (.restore m snap) = some f') :
    f'.applied = m ∧ f'.node.fsm.writesEnabled = f.node.fsm.writesEnabled := by
  simp only [step] at h
  split_ifs at h
  cases h
  exact ⟨rfl, rfl⟩

theorem Follower.run_concat {p : List CatchUp} {c : CatchUp}
    (h : (machine log).run .fresh (p ++ [c]) = some f') :
    ∃ f, (machine log).run .fresh p = some f ∧ f.step log c = some f' := by
  rw [Machine.run_append] at h
  obtain ⟨f, hf, hc⟩ := Option.bind_eq_some_iff.1 h
  obtain ⟨f₁, hstep, hf₁⟩ := Option.bind_eq_some_iff.1 hc
  cases hf₁
  exact ⟨f, hf, hstep⟩

/-- When no restore changes the flag, every replica has the flag of its index. -/
theorem RestoresKeepFlag.flag_eq {hist : R → List CatchUp} (h : RestoresKeepFlag log hist) {r : R}
    {p : List CatchUp} (hp : p <+: hist r) (hf : (Follower.machine log).run .fresh p = some f) :
    f.node.fsm.writesEnabled = flagAt log f.applied := by
  induction p using List.reverseRecOn generalizing f with
  | nil => cases hf; rfl
  | append_singleton p c ih =>
    obtain ⟨f₀, hf₀, hstep⟩ := Follower.run_concat hf
    have hflag := ih ((List.prefix_append p [c]).trans hp) hf₀
    cases c with
    | apply => exact Follower.flag_apply hstep hflag
    | restore m snap =>
      obtain ⟨hm, hkeep⟩ := Follower.restore_eq hstep
      rw [hkeep, hflag, hm]
      exact h r p m snap f₀ f hp hf₀ hf

/-- **The replicas agree on the flag at every index iff no restore changes it.** -/
theorem flagsAgree_iff (log : List KVFSMLogEntry) (hist : R → List CatchUp) :
    FlagsAgree log hist ↔ RestoresKeepFlag log hist := by
  constructor
  · intro h r p m snap f f' hp hf hf'
    -- before the restore the flag is the one of the old index, after it that of the new one
    have hbefore := (h r r p p f f ((List.prefix_append _ _).trans hp)
      ((List.prefix_append _ _).trans hp) hf hf rfl).2
    have hafter := (h r r _ _ f' f' hp hp hf' hf' rfl).2
    obtain ⟨f₁, hf₁, hstep⟩ := Follower.run_concat hf'
    rw [hf] at hf₁
    cases hf₁
    obtain ⟨hm, hkeep⟩ := Follower.restore_eq hstep
    rw [← hbefore, ← hkeep, hafter, hm]
  · intro h r₁ r₂ p₁ p₂ f₁ f₂ hp₁ hp₂ hf₁ hf₂ hidx
    have h₁ := h.flag_eq hp₁ hf₁
    have h₂ := h.flag_eq hp₂ hf₂
    exact ⟨by rw [h₁, h₂, hidx], h₁⟩

/-- **`Restore` forgets that writes were disabled.**  One replica applies a toggle and a set; the
other restores the snapshot that `Persist` writes there, in which the flag is `false`.  Both are at
index 2, with different flags. -/
theorem not_flagsAgree_of_toggle :
    Node.PersistedBetween [.toggle false, .set "a" "1"] 2 2
        ⟨(∅ : Contents).insert "a" "1", false⟩ ∧
      ¬ FlagsAgree [.toggle false, .set "a" "1"] fun restored : Bool =>
        if restored then [.restore 2 ⟨(∅ : Contents).insert "a" "1", false⟩]
        else [.apply, .apply] := by
  constructor
  · have ha : Node.opened.applyAll [.toggle false, .set "a" "1"] = some _ := rfl
    exact Node.persistedBetween_persist [.toggle false, .set "a" "1"] (i := 2) (t := 2) le_rfl
      le_rfl ha rfl
  · intro h
    have := (h true true _ _ _ _ (List.prefix_refl _) (List.prefix_refl _) rfl rfl rfl).2
    exact absurd this (by decide)

end ShardedKvs
