import Mathlib.Algebra.Order.BigOperators.Group.List
import Mathlib.Algebra.Order.Group.Int
import Mathlib.Data.List.TakeWhile
import ShardedKvs.Kvctl.Basic

/-!
# The view on which the controller advances

Each phase ends when all shards that the controller lists have done their part.  A List that fails
is folded into an empty list, and then nothing is left to wait for.

* `Pass.Complete` : the pass leaves a phase only on a complete view of the cluster.
* `Sees` : the Lists of the pass succeed, no shard answers a negative number of pending keys, and
  the objects that are to go can be told by their group.
* `complete_of_sees` : **every pass of a run whose passes all see is complete**.
* `not_complete` : a pass whose List fails leaves `PreparingScale` with a shard that is not ready.
-/

namespace ShardedKvs

namespace Kvctl

/-- The persisted phase. -/
def Cluster.phase (w : Cluster) : Phase := w.kvStore.status.phase

/-- No object of a shard with index `TargetShards` or more is left. -/
structure Trimmed (k : KVStore) (w : Cluster) : Prop where
  statefulSets : ∀ i, k.status.targetShards ≤ i → ∀ x ∈ w.statefulSets, x.name ≠ setName k.name i
  services : ∀ i, k.status.targetShards ≤ i → ∀ x ∈ w.services, x.name ≠ shardName k.name i
  ingresses : ∀ i, k.status.targetShards ≤ i → ∀ x ∈ w.ingresses, x.name ≠ ingressName k.name i

/-- The pass has seen every existing shard with all replicas ready. -/
def Pass.AllReady (p : Pass) : Prop :=
  ∀ x ∈ p.before.statefulSets, x ∈ p.trace.ready ∧ x.readyReplicas = x.replicas

/-- The pass moves the persisted phase out of a phase only if, in that pass, every existing shard
has done its part of it.  A scale-down can enter and leave `PreparingScale` in one pass. -/
def Pass.Complete (p : Pass) : Prop :=
  match p.before.phase with
  | .normal => p.after.phase ≠ .normal → p.after.phase ≠ .preparingScale → p.AllReady
  | .preparingScale => p.after.phase ≠ .preparingScale → p.AllReady
  | .stoppingWrites => p.after.phase ≠ .stoppingWrites →
      ∀ x ∈ p.before.statefulSets, x ∈ p.trace.paused
  | .redistributingKeys => p.after.phase ≠ .redistributingKeys →
      ∀ x ∈ p.before.statefulSets, (x, 0) ∈ p.trace.pendingKeys
  | .finalizingScale => p.after.phase ≠ .finalizingScale →
      p.before.kvStore.status.targetShards ≤ p.before.kvStore.status.currentShards →
      Trimmed p.before.kvStore p.after
  | .resumingWrites => p.after.phase ≠ .resumingWrites →
      ∀ x ∈ p.before.statefulSets, x ∈ p.trace.resumed
  -- never entered, and no pass does anything in it
  | .scaleComplete => True

/-- An object of a shard that is to go has an index below `CurrentShards` and the group of that
shard. -/
def Deletable (k : KVStore) (i : ℕ) (o : ObjectMeta) : Prop :=
  i < k.status.currentShards ∧ o.group = shardName k.name i

/-- Every object of a shard with index `TargetShards` or more can be told by its group. -/
structure Grouped (k : KVStore) (w : Cluster) : Prop where
  statefulSets : ∀ i, k.status.targetShards ≤ i → ∀ x ∈ w.statefulSets,
    x.name = setName k.name i → Deletable k i x.toObjectMeta
  services : ∀ i, k.status.targetShards ≤ i → ∀ x ∈ w.services,
    x.name = shardName k.name i → Deletable k i x
  ingresses : ∀ i, k.status.targetShards ≤ i → ∀ x ∈ w.ingresses,
    x.name = ingressName k.name i → Deletable k i x

/-- The pass sees what it relies on. -/
def Sees (w : Cluster) (a : Answers) : Prop :=
  match w.phase with
  | .normal => w.kvStore.spec.shards < w.statefulSets.length → a.getShards = true
  | .redistributingKeys => a.getShards = true ∧
      ∀ x ∈ w.statefulSets, ∀ n, a.redistributeKeys x.serviceName = .ok n → 0 ≤ n.toInt
  | .finalizingScale => w.kvStore.status.targetShards ≤ w.kvStore.status.currentShards →
      a.getShards = true ∧ a.getServices = true ∧ a.getIngresses = true ∧ Grouped w.kvStore w
  | _ => a.getShards = true

/-! ### The status -/

variable {k : KVStore} {a : Answers} {w : Cluster}

/-- A status update persists the phase of the object, or does nothing. -/
theorem phase_updateStatus (ok : Bool) :
    (updateStatus ok k w).phase = k.status.phase ∨ (updateStatus ok k w).phase = w.phase := by
  unfold updateStatus
  split
  · exact .inl rfl
  · exact .inr rfl

theorem phase_setMessage (ok : Bool) (message : String) :
    (updateStatus ok (w.kvStore.setMessage message) w).phase = w.phase := by
  rcases phase_updateStatus (k := w.kvStore.setMessage message) (w := w) ok with hp | hp
  · exact hp
  · exact hp

theorem phase_updateConfigMap : (updateConfigMap k a w).1.phase = w.phase := by
  unfold updateConfigMap
  simp only
  split
  · rfl
  · split <;> split <;> rfl

/-! ### The phases -/

/-- `PrepareScale` leaves the phase of the object only when all shards are ready. -/
theorem prepareScale_ready (hk : k.status.phase = .preparingScale) (hlist : a.getShards = true)
    (hphase : (prepareScale k a w).1.phase ≠ .preparingScale)
    (hw : (prepareScale k a w).1.phase ≠ w.phase) :
    ∀ x ∈ w.statefulSets, x ∈ (prepareScale k a w).2.ready ∧ x.readyReplicas = x.replicas := by
  unfold prepareScale getShards at hphase hw ⊢
  simp only [hlist, if_true] at hphase hw ⊢
  split_ifs at hphase hw ⊢ with hlt
  · rcases phase_updateStatus (k := k.setMessage "Waiting for shards to be ready") (w := w)
      a.updateStatus with hp | hp
    · exact absurd (hp.trans hk) hphase
    · exact absurd hp hw
  all_goals
    -- the loop has gone through the whole list, so each shard has passed its test
    intro x hx
    have hall := List.takeWhile_eq_self_iff.1 ((List.takeWhile_prefix _).eq_of_length_le
      (not_lt.1 hlt))
    refine ⟨?_, by simpa using hall x hx⟩
    change x ∈ w.statefulSets.takeWhile _
    rw [List.takeWhile_eq_self_iff.2 hall]
    exact hx

/-- `StopWrites` leaves the phase only when all shards have answered `IsPaused`. -/
theorem stopWrites_paused (hlist : a.getShards = true)
    (h : (stopWrites w.kvStore a w).1.phase ≠ w.phase) :
    (stopWrites w.kvStore a w).2.paused = w.statefulSets := by
  rcases stopWrites_cases w.kvStore a w with ⟨message, heq⟩ | ⟨hpaused, -⟩
  · exact absurd (heq ▸ phase_setMessage _ _) h
  · exact hpaused.trans (if_pos hlist)

/-- `ResumeWrites` leaves the phase only when all shards have answered `IsResumed`. -/
theorem resumeWrites_resumed (hlist : a.getShards = true)
    (h : (resumeWrites w.kvStore a w).1.phase ≠ w.phase) :
    (resumeWrites w.kvStore a w).2.resumed = w.statefulSets := by
  rcases resumeWrites_cases w.kvStore a w with ⟨message, heq⟩ | ⟨hresumed, -⟩
  · exact absurd (heq ▸ phase_setMessage _ _) h
  · exact hresumed.trans (if_pos hlist)

/-- `RedistributeKeys` leaves the phase only when the answers of all shards add up to 0; if none is
negative, all of them are 0. -/
theorem redistributeKeys_zero (hlist : a.getShards = true)
    (hnonneg : ∀ x ∈ w.statefulSets, ∀ n, a.redistributeKeys x.serviceName = .ok n → 0 ≤ n.toInt)
    (h : (redistributeKeys w.kvStore a w).1.phase ≠ w.phase) :
    ∀ x ∈ w.statefulSets, (x, 0) ∈ (redistributeKeys w.kvStore a w).2.pendingKeys := by
  unfold redistributeKeys getShards at h ⊢
  simp only [hlist, if_true] at h ⊢
  split at h
  · exact (h (phase_setMessage _ _)).elim
  · rename_i hnone
    split_ifs at h with hsum
    · -- a sum of answers that are not negative is 0 only if each of them is
      intro x hx
      obtain ⟨n, -, hmem⟩ := mem_pollAll hnone hx
      have hzero : ∀ m ∈ ((pollAll (fun y => a.redistributeKeys y.serviceName)
          w.statefulSets).1.map fun y => y.2.toInt), 0 ≤ m := by
        intro m hm
        obtain ⟨⟨y, n'⟩, hy, rfl⟩ := List.mem_map.1 hm
        obtain ⟨hys, hask⟩ := ask_of_mem_pollAll hy
        exact hnonneg y hys n' hask
      have hn : n.toInt = 0 :=
        List.all_zero_of_le_zero_le_of_sum_eq_zero hzero hsum (List.mem_map.2 ⟨(x, n), hmem, rfl⟩)
      rw [show n = 0 from Int32.toInt.inj hn] at hmem
      simp only [hsum, if_true]
      exact hmem
    · exact (h (phase_setMessage _ _)).elim

/-! ### The end of a scale-down -/

theorem doomed_of_deletable {i : ℕ} {o : ObjectMeta} (hi : k.status.targetShards ≤ i)
    (h : Deletable k i o) : doomed k o = true :=
  (doomed_iff_of_group h.2).2 ⟨h.1, hi⟩

theorem Trimmed.of_objects_eq {w' : Cluster} (h : Trimmed k w) (hobj : w'.objects = w.objects) :
    Trimmed k w' := by
  simp only [Cluster.objects, Prod.mk.injEq] at hobj
  obtain ⟨h₁, h₂, h₃⟩ := hobj
  exact ⟨h₁ ▸ h.statefulSets, h₂ ▸ h.services, h₃ ▸ h.ingresses⟩

/-- `FinalizeScale` of a scale-down leaves the phase only when everything that is to go is gone. -/
theorem finalizeScale_trimmed
    (hdown : w.kvStore.status.targetShards ≤ w.kvStore.status.currentShards)
    (hshards : a.getShards = true) (hservices : a.getServices = true)
    (hingresses : a.getIngresses = true) (hg : Grouped w.kvStore w)
    (h : (finalizeScale w.kvStore a w).phase ≠ w.phase) :
    Trimmed w.kvStore (finalizeScale w.kvStore a w) := by
  have hswept := swept_deleteGroups (k := w.kvStore) (a := a) (w := w)
  unfold finalizeScale at h ⊢
  rw [if_neg (not_lt.2 hdown)] at h ⊢
  simp only at h ⊢
  split_ifs at h ⊢ with hok
  · exact (h (congrArg (fun k : KVStore => k.status.phase) hswept.kvStore)).elim
  · rw [Bool.not_eq_true, Bool.not_eq_false'] at hok
    obtain ⟨h₁, h₂, h₃⟩ := deleteGroups_of_true hshards hservices hingresses hok
    refine Trimmed.of_objects_eq ⟨fun i hi x hx hname => ?_, fun i hi x hx hname => ?_,
      fun i hi x hx hname => ?_⟩ objects_resumeAfterScale
    -- an object that has survived existed before, so its group would have doomed it
    · have hmem := hswept.statefulSets.sublist.subset hx
      exact absurd (h₁ x hx) (by simp [doomed_of_deletable hi (hg.statefulSets i hi x hmem hname)])
    · have hmem := hswept.services.sublist.subset hx
      exact absurd (h₂ x hx) (by simp [doomed_of_deletable hi (hg.services i hi x hmem hname)])
    · have hmem := hswept.ingresses.sublist.subset hx
      exact absurd (h₃ x hx) (by simp [doomed_of_deletable hi (hg.ingresses i hi x hmem hname)])

/-! ### One pass -/

theorem Pass.Complete.of_phase_eq {p : Pass} (h : p.after.phase = p.before.phase) : p.Complete := by
  unfold Pass.Complete
  split <;> first | trivial | exact fun hne => absurd (h.trans ‹_›) hne

/-- The first two calls of a scale operation persist `PreparingScale`, or leave the phase alone. -/
theorem phase_startScale :
    (updateConfigMap w.startScale a (updateStatus a.startStatus w.startScale w)).1.phase =
        .preparingScale ∨
      (updateConfigMap w.startScale a (updateStatus a.startStatus w.startScale w)).1.phase =
        w.phase := by
  rw [phase_updateConfigMap]
  exact phase_updateStatus _

theorem objects_startScale :
    (updateConfigMap w.startScale a (updateStatus a.startStatus w.startScale w)).1.objects =
      w.objects := by
  rw [objects_updateConfigMap, objects_updateStatus]

theorem phase_scaleUp : (scaleUp a w).phase = .preparingScale ∨ (scaleUp a w).phase = w.phase := by
  have hstart := phase_startScale (a := a) (w := w)
  unfold scaleUp spinUp
  simp only
  -- creating resources does not touch the status
  split
  · exact hstart
  · split
    · exact hstart
    · split <;> exact hstart

/-- A scale-down that starts moving data in its first pass has seen all shards ready. -/
theorem scaleDown_ready (hnormal : w.phase = .normal) (hlist : a.getShards = true)
    (h₁ : (scaleDown a w).1.phase ≠ .normal) (h₂ : (scaleDown a w).1.phase ≠ .preparingScale) :
    ∀ x ∈ w.statefulSets, x ∈ (scaleDown a w).2.ready ∧ x.readyReplicas = x.replicas := by
  have hstart := phase_startScale (a := a) (w := w)
  rw [hnormal] at hstart
  unfold scaleDown at h₁ h₂ ⊢
  simp only at h₁ h₂ ⊢
  split_ifs at h₁ h₂ ⊢ with hok
  · rcases hstart with hp | hp
    · exact absurd hp h₂
    · exact absurd hp h₁
  · intro x hx
    have hx' := Cluster.statefulSets_eq (objects_startScale (a := a) (w := w)) ▸ hx
    refine prepareScale_ready rfl hlist h₂ ?_ x hx'
    rcases hstart with hp | hp <;> rw [hp]
    · exact h₂
    · exact h₁

theorem complete_reconcilePhase (hsees : Sees w a) :
    Pass.Complete ⟨w, (reconcilePhase a w).2, (reconcilePhase a w).1⟩ := by
  unfold Sees at hsees
  unfold reconcilePhase Pass.Complete
  cases hphase : w.kvStore.status.phase with
  | normal =>
    have hp : w.phase = .normal := hphase
    simp only [hp] at hsees ⊢
    split_ifs
    · intro h₁ h₂
      rcases phase_scaleUp (a := a) (w := w) with hup | hup
      · exact absurd hup h₂
      · exact absurd (hup.trans hp) h₁
    · exact scaleDown_ready hp (hsees ‹_›)
    · exact fun h₁ => absurd hp h₁
  | preparingScale =>
    have hp : w.phase = .preparingScale := hphase
    simp only [hp] at hsees ⊢
    exact fun hne => prepareScale_ready hphase hsees hne (hp ▸ hne)
  | stoppingWrites =>
    have hp : w.phase = .stoppingWrites := hphase
    simp only [hp] at hsees ⊢
    intro hne x hx
    rw [stopWrites_paused hsees (hp ▸ hne)]; exact hx
  | redistributingKeys =>
    have hp : w.phase = .redistributingKeys := hphase
    simp only [hp] at hsees ⊢
    exact fun hne => redistributeKeys_zero hsees.1 hsees.2 (hp ▸ hne)
  | finalizingScale =>
    have hp : w.phase = .finalizingScale := hphase
    simp only [hp] at hsees ⊢
    intro hne hdown
    obtain ⟨h₁, h₂, h₃, hg⟩ := hsees hdown
    exact finalizeScale_trimmed hdown h₁ h₂ h₃ hg (hp ▸ hne)
  | resumingWrites =>
    have hp : w.phase = .resumingWrites := hphase
    simp only [hp] at hsees ⊢
    intro hne x hx
    rw [resumeWrites_resumed hsees (hp ▸ hne)]; exact hx
  | scaleComplete =>
    have hp : w.phase = .scaleComplete := hphase
    simp only [hp]

theorem complete_reconcile (hsees : Sees w a) :
    Pass.Complete ⟨w, (reconcile a w).2, (reconcile a w).1⟩ := by
  rcases reconcile_cases a w with ⟨f, -, heq⟩ | ⟨-, -, heq⟩ <;> rw [heq]
  · exact .of_phase_eq rfl
  · exact complete_reconcilePhase hsees

/-- The passes of the run see what they rely on. -/
def SeesAll (s : State) : Label → Prop
  | .reconcile a => Sees s.cluster a
  | _ => True

/-- **The controller advances on a complete view only.**  For every run from the creation of a
`KVStore` object, with any failing calls and any answers of the shards: if each pass sees what it
relies on, each pass leaves a phase only when every existing shard has done its part. -/
theorem complete_of_sees (name : String) (labels : Labels) (spec : KVStoreSpec) (s : State)
    (h : machine.ReachedBy SeesAll (created name labels spec) s) : ∀ p ∈ s.history, p.Complete := by
  refine h.invariant (I := fun s => ∀ p ∈ s.history, p.Complete)
    (fun p hp => absurd hp List.not_mem_nil) fun s l s' hi hsees hst => ?_
  cases l with
  | reconcile a =>
    cases hst
    intro p hp
    rcases List.mem_append.1 hp with hmem | hmem
    · exact hi p hmem
    · rw [List.mem_singleton.1 hmem]; exact complete_reconcile hsees
  | change c =>
    obtain ⟨w, -, rfl⟩ := Option.map_eq_some_iff.1 hst
    exact hi

/-- A store with one shard is created and grows to two shards. -/
theorem complete_of_sees_grow :
    ∃ s, machine.ReachedBy SeesAll (created "kv" ∅ ⟨1, 1⟩) s ∧ s.cluster.phase = .normal ∧
      s.history.length = 8 ∧ ∀ p ∈ s.history, p.Complete := by
  obtain ⟨s, hs, hp, hl⟩ : ∃ s, machine.ReachedBy SeesAll (created "kv" ∅ ⟨1, 1⟩) s ∧
      s.cluster.phase = .normal ∧ s.history.length = 8 :=
    ⟨_, .head (l := .reconcile .ok) (fun _ => rfl) rfl <|
      .head (l := .change (.ready "kv-shard-0-replica" 1)) trivial rfl <|
      .head (l := .reconcile .ok) (rfl : _ = _) rfl <|
      .head (l := .change (.edit ⟨2, 1⟩ ∅)) trivial rfl <|
      .head (l := .reconcile .ok) (fun _ => rfl) rfl <|
      .head (l := .change (.ready "kv-shard-1-replica" 1)) trivial rfl <|
      .head (l := .reconcile .ok) (rfl : _ = _) rfl <|
      .head (l := .reconcile .ok) (rfl : _ = _) rfl <|
      .head (l := .reconcile .ok) ⟨rfl, fun _ _ n hn => by cases hn; decide⟩ rfl <|
      .head (l := .reconcile .ok) (fun hdown => absurd hdown (by decide)) rfl <|
      .head (l := .reconcile .ok) (rfl : _ = _) rfl .start, rfl, rfl⟩
  exact ⟨s, hs, hp, hl, complete_of_sees "kv" ∅ ⟨1, 1⟩ s hs⟩

/-- **A List that fails reads as an empty cluster.**  The first shard has just been created, none of
its replicas is ready, and the pass after it leaves `PreparingScale`. -/
theorem not_complete :
    ¬ ∀ s, machine.Reached (created "kv" ∅ ⟨1, 1⟩) s → ∀ p ∈ s.history, p.Complete := by
  intro h
  obtain ⟨s, hs, p, hp, hbefore, hafter, x, hx, hready⟩ :
      ∃ s, machine.Reached (created "kv" ∅ ⟨1, 1⟩) s ∧ ∃ p ∈ s.history,
        p.before.phase = .preparingScale ∧ p.after.phase ≠ .preparingScale ∧
        ∃ x ∈ p.before.statefulSets, x.readyReplicas ≠ x.replicas :=
    ⟨_, Machine.Reached.of_run
      [.reconcile .ok, .reconcile { Answers.ok with getShards := false }] rfl,
      _, List.mem_cons_of_mem _ List.mem_cons_self, rfl, by decide, _, List.mem_cons_self,
      by decide⟩
  have hc := h s hs p hp
  unfold Pass.Complete at hc
  simp only [hbefore] at hc
  exact hready (hc hafter x hx).2

end Kvctl

end ShardedKvs
