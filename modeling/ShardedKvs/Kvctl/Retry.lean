import ShardedKvs.Kvctl.Quiet

/-!
# Retrying a scale-up

`Reconcile` counts the StatefulSets and creates the objects of all three kinds from that index on.
A Create of an object that exists fails, and the pass returns its error.  The Ingresses and Services
are created first, so a pass that has stopped half-way leaves objects that stop the next one.

* `reconcileFails` : whether `Reconcile` returns an error, for every phase.
* `Calm` : no call to the API server fails in the pass.
* `Resumable` : the StatefulSets are up to date, the shards below their number have all their
  objects, and the shards from there on have none.
* `retry_iff` : **a calm pass of a scale-up returns no error and leaves every shard with all its
  objects, if and only if the cluster is resumable**.
* `not_retry` : a pass that has created the first Ingress and no more can never be retried.
-/

namespace ShardedKvs

namespace Kvctl

/-! ### The error of a pass -/

/-- Whether the functions that create the objects return an error. -/
def spinUpFails (k : KVStore) (a : Answers) (w : Cluster) : Bool :=
  let r₁ := spinUpShardIngresses k a w
  if !r₁.2 then true
  else
    let r₂ := spinUpShardServices k a r₁.1
    if !r₂.2 then true else !(spinUpShards k a r₂.1).2

/-- Whether the branch with fewer shards than wanted returns an error. -/
def scaleUpFails (a : Answers) (w : Cluster) : Bool :=
  let k := w.startScale
  let r := updateConfigMap k a (updateStatus a.startStatus k w)
  if !r.2 then true else spinUpFails k a r.1

/-- Whether the branch with more shards than wanted returns an error; `PrepareScale` returns that of
its status update. -/
def scaleDownFails (a : Answers) (w : Cluster) : Bool :=
  let k := w.startScale
  let r := updateConfigMap k a (updateStatus a.startStatus k w)
  if !r.2 then true else !a.updateStatus

/-- Whether a round of questions returns an error: that of a shard, or of the status update. -/
def askFails (a : Answers) : Verdict String → Bool
  | .failed _ => true
  | .waiting | .all => !a.updateStatus

/-- Whether `RedistributeKeys` returns an error. -/
def redistributeKeysFails (a : Answers) (w : Cluster) : Bool :=
  match (pollAll (fun x : StatefulSet => a.redistributeKeys x.serviceName) (getShards a w)).2 with
  | some _ => true
  | none => !a.updateStatus

/-- Whether the end of `FinalizeScale` returns an error. -/
def resumeAfterScaleFails (k : KVStore) (a : Answers) (w : Cluster) : Bool :=
  let k' := (k.setPhase .resumingWrites "Starting to resume writes").setCurrent
  if (updateConfigMap k' a w).2 then !a.updateStatus else true

/-- Whether `FinalizeScale` returns an error. -/
def finalizeScaleFails (k : KVStore) (a : Answers) (w : Cluster) : Bool :=
  if k.status.currentShards < k.status.targetShards then resumeAfterScaleFails k a w
  else
    let r := deleteGroups k a w
    if !r.2 then true else resumeAfterScaleFails k a r.1

/-- Whether the phase of `Reconcile` returns an error. -/
def reconcilePhaseFails (a : Answers) (w : Cluster) : Bool :=
  match w.kvStore.status.phase with
  | .normal =>
    if w.statefulSets.length < w.kvStore.spec.shards then scaleUpFails a w
    else if w.kvStore.spec.shards < w.statefulSets.length then scaleDownFails a w
    else false
  | .preparingScale => !a.updateStatus
  | .stoppingWrites =>
    askFails a (askAll (fun x => a.pauseWrites x.serviceName) (getShards a w)).2
  | .redistributingKeys => redistributeKeysFails a w
  | .resumingWrites =>
    askFails a (askAll (fun x => a.resumeWrites x.serviceName) (getShards a w)).2
  | .finalizingScale => finalizeScaleFails w.kvStore a w
  | .scaleComplete => false

/-- Whether `Reconcile` returns an error. -/
def reconcileFails (a : Answers) (w : Cluster) : Bool :=
  if !a.getKVStore || !a.listShards then true
  else match outdated w with
    | _ :: _ => !a.updateShard
    | [] => reconcilePhaseFails a w

/-! ### What a retry needs -/

/-- No call to the API server fails; the shards may answer anything. -/
def Calm (a : Answers) : Prop :=
  ∃ pauseWrites redistributeKeys resumeWrites, a =
    { Answers.ok with
      pauseWrites := pauseWrites
      redistributeKeys := redistributeKeys
      resumeWrites := resumeWrites }

/-- The shard has an object of one kind. -/
def Has (nm : ℕ → String) (i : ℕ) (xs : List ObjectMeta) : Prop := ∃ x ∈ xs, x.name = nm i

/-- The StatefulSet, the Service and the Ingress of shard `i` exist. -/
structure HasAll (name : String) (i : ℕ) (w : Cluster) : Prop where
  statefulSet : Has (setName name) i w.sets
  service : Has (shardName name) i w.services
  ingress : Has (ingressName name) i w.ingresses

/-- None of the objects of shard `i` exists. -/
structure HasNone (name : String) (i : ℕ) (w : Cluster) : Prop where
  statefulSet : ¬ Has (setName name) i w.sets
  service : ¬ Has (shardName name) i w.services
  ingress : ¬ Has (ingressName name) i w.ingresses

/-- The objects are where a scale-up that counts the StatefulSets expects them. -/
structure Resumable (w : Cluster) : Prop where
  outdated : outdated w = []
  below : ∀ i < w.statefulSets.length, HasAll w.kvStore.name i w
  free : ∀ i, w.statefulSets.length ≤ i → i < w.kvStore.spec.shards → HasNone w.kvStore.name i w

/-! ### One kind of object -/

theorem mem_newIndices {k : KVStore} {i : ℕ} :
    i ∈ newIndices k ↔ k.status.currentShards ≤ i ∧ i < k.status.targetShards := by
  rw [newIndices, List.mem_range'_1]
  omega

section Kind

variable {nm : ℕ → String} {mk : ℕ → ObjectMeta} {k : KVStore} {xs : List ObjectMeta} {n i : ℕ}

theorem has_append_iff (hinj : Function.Injective nm) (hname : ∀ i, (mk i).name = nm i) :
    Has nm i (xs ++ (newIndices k).map mk) ↔ Has nm i xs ∨ i ∈ newIndices k := by
  constructor
  · rintro ⟨x, hx, hi⟩
    rcases List.mem_append.1 hx with hx | hx
    · exact .inl ⟨x, hx, hi⟩
    · obtain ⟨j, hj, rfl⟩ := List.mem_map.1 hx
      have hji : j = i := hinj ((hname j).symm.trans hi)
      exact .inr (hji ▸ hj)
  · rintro (⟨x, hx, hi⟩ | hi)
    · exact ⟨x, List.mem_append_left _ hx, hi⟩
    · exact ⟨mk i, List.mem_append_right _ (List.mem_map_of_mem hi), hname i⟩

/-- As many shards have an object as there are objects, at most. -/
theorem le_length_of_has (hinj : Function.Injective nm) (h : ∀ i < n, Has nm i xs) :
    n ≤ xs.length := by
  have hsub : (List.range n).map nm ⊆ xs.map ObjectMeta.name := by
    intro y hy
    obtain ⟨i, hi, rfl⟩ := List.mem_map.1 hy
    obtain ⟨x, hx, hname⟩ := h i (List.mem_range.1 hi)
    exact List.mem_map.2 ⟨x, hx, hname⟩
  have hle := (List.subperm_of_subset (List.nodup_range.map hinj) hsub).length_le
  rwa [List.length_map, List.length_map, List.length_range] at hle

/-- The new objects of one kind have been created, so no name was taken. -/
theorem not_has_of_createAll {ok : ℕ → Bool} (hname : ∀ i, (mk i).name = nm i)
    (h : (createAll ObjectMeta.name mk ok (newIndices k) xs).2 = true) (hi : i ∈ newIndices k) :
    ¬ Has nm i xs := by
  rintro ⟨x, hx, hxi⟩
  refine notMem_of_createAll h i hi ?_
  rw [hname]
  exact List.mem_map.2 ⟨x, hx, hxi⟩

end Kind

/-! ### One pass -/

section Pass

variable {k : KVStore} {a : Answers} {w : Cluster}

/-- The objects are created independently of each other. -/
theorem spinUpFails_eq_false_iff :
    spinUpFails k a w = false ↔
      (createAll ObjectMeta.name (shardIngress k) a.createIngress (newIndices k) w.ingresses).2 =
          true ∧
        (createAll ObjectMeta.name (shardService k) a.createService (newIndices k) w.services).2 =
          true ∧
        (createAll (fun x : StatefulSet => x.name) (shard k) a.createShard (newIndices k)
          w.statefulSets).2 = true := by
  unfold spinUpFails spinUpShardIngresses spinUpShardServices spinUpShards
  simp only
  split_ifs with h₁ h₂ <;> simp_all

theorem Calm.updateConfigMap (ha : Calm a) : (updateConfigMap k a w).2 = true := by
  obtain ⟨p, r, s, rfl⟩ := ha
  unfold Kvctl.updateConfigMap
  cases w.configMap <;> rfl

/-- A pass that finds the names free writes everything. -/
theorem Calm.writes (ha : Calm a)
    (hfree : ∀ i, w.statefulSets.length ≤ i → i < w.kvStore.spec.shards →
      HasNone w.kvStore.name i w) : Writes w a := by
  obtain ⟨p, r, s, rfl⟩ := ha
  refine ⟨rfl, fun _ => rfl, fun _ => rfl, fun i h₁ h₂ => ⟨rfl, fun x hx hname => ?_⟩,
    fun i h₁ h₂ => ⟨rfl, fun x hx hname => ?_⟩, fun i h₁ h₂ => ⟨rfl, fun x hx hname => ?_⟩⟩
  · exact (hfree i h₁ h₂).statefulSet ⟨x.toObjectMeta, List.mem_map_of_mem hx, hname⟩
  · exact (hfree i h₁ h₂).service ⟨x, hx, hname⟩
  · exact (hfree i h₁ h₂).ingress ⟨x, hx, hname⟩

/-- A calm scale-up returns no error if and only if the names of the new objects are free. -/
theorem Calm.scaleUpFails_iff (ha : Calm a) :
    scaleUpFails a w = false ↔ ∀ i, w.statefulSets.length ≤ i → i < w.kvStore.spec.shards →
      HasNone w.kvStore.name i w := by
  have hobj := objects_startScale (a := a) (w := w)
  simp only [Cluster.objects, Prod.mk.injEq] at hobj
  obtain ⟨e₁, e₂, e₃⟩ := hobj
  simp only [scaleUpFails, ha.updateConfigMap, Bool.not_true, Bool.false_eq_true, if_false]
  rw [spinUpFails_eq_false_iff, e₁, e₂, e₃]
  constructor
  · rintro ⟨h₁, h₂, h₃⟩ i hle hlt
    have hi : i ∈ newIndices w.startScale := mem_newIndices.2 ⟨hle, hlt⟩
    refine ⟨?_, not_has_of_createAll (fun _ => rfl) h₂ hi,
      not_has_of_createAll (fun _ => rfl) h₁ hi⟩
    rintro ⟨x, hx, hname⟩
    obtain ⟨y, hy, rfl⟩ := List.mem_map.1 hx
    exact notMem_of_createAll h₃ i hi (List.mem_map.2 ⟨y, hy, hname⟩)
  · intro hfree
    have hw := ha.writes hfree
    refine ⟨?_, ?_, ?_⟩
    · rw [createAll_newIndices w.startScale ObjectMeta.name (shardIngress w.startScale)
        (ingressName_injective _) hw.ingresses]
    · rw [createAll_newIndices w.startScale ObjectMeta.name (shardService w.startScale)
        (shardName_injective _) hw.services]
    · rw [createAll_newIndices w.startScale (fun x : StatefulSet => x.name) (shard w.startScale)
        (setName_injective _) hw.shards]

/-- The objects after a scale-up that has found the names free. -/
theorem Calm.hasAll_scaleUp (ha : Calm a)
    (hfree : ∀ i, w.statefulSets.length ≤ i → i < w.kvStore.spec.shards →
      HasNone w.kvStore.name i w) (i : ℕ) :
    HasAll w.kvStore.name i (scaleUp a w) ↔
      HasAll w.kvStore.name i w ∨ i ∈ newIndices w.startScale := by
  obtain ⟨h₁, h₂, h₃, -⟩ := scaleUp_of_writes (ha.writes hfree)
  have hsets : (scaleUp a w).sets =
      w.sets ++ (newIndices w.startScale).map fun i => (shard w.startScale i).toObjectMeta := by
    simp only [Cluster.sets, h₁, List.map_append, List.map_map]
    rfl
  have hset : Has (setName w.kvStore.name) i (scaleUp a w).sets ↔
      Has (setName w.kvStore.name) i w.sets ∨ i ∈ newIndices w.startScale :=
    hsets ▸ has_append_iff (setName_injective _) fun _ => rfl
  have hservice : Has (shardName w.kvStore.name) i (scaleUp a w).services ↔
      Has (shardName w.kvStore.name) i w.services ∨ i ∈ newIndices w.startScale :=
    h₂ ▸ has_append_iff (shardName_injective _) fun _ => rfl
  have hingress : Has (ingressName w.kvStore.name) i (scaleUp a w).ingresses ↔
      Has (ingressName w.kvStore.name) i w.ingresses ∨ i ∈ newIndices w.startScale :=
    h₃ ▸ has_append_iff (ingressName_injective _) fun _ => rfl
  constructor
  · rintro ⟨h₁, h₂, h₃⟩
    by_cases hi : i ∈ newIndices w.startScale
    · exact .inr hi
    · exact .inl ⟨(hset.1 h₁).resolve_right hi, (hservice.1 h₂).resolve_right hi,
        (hingress.1 h₃).resolve_right hi⟩
  · intro h
    exact ⟨hset.2 (h.imp_left HasAll.statefulSet), hservice.2 (h.imp_left HasAll.service),
      hingress.2 (h.imp_left HasAll.ingress)⟩

end Pass

/-! ### The main result -/

section Main

variable {a : Answers} {w : Cluster}

/-- A pass of a scale-up with up-to-date StatefulSets goes on to create objects. -/
theorem reconcile_scaleUp (ha : Calm a) (hp : w.phase = .normal)
    (hlt : w.statefulSets.length < w.kvStore.spec.shards) (hout : outdated w = []) :
    (reconcile a w).1 = scaleUp a w ∧ reconcileFails a w = scaleUpFails a w := by
  have hp' : w.kvStore.status.phase = .normal := hp
  obtain ⟨p, r, s, rfl⟩ := ha
  simp only [reconcile, reconcileFails, hout, reconcilePhase, reconcilePhaseFails, hp', hlt,
    if_true]
  exact ⟨rfl, rfl⟩

end Main

/-- **A scale-up can be retried if and only if it has left nothing half-done.**  For every cluster
in `Normal` with fewer StatefulSets than the spec wants, hence for those that any failures have led
to: a pass in which no call to the API server fails returns no error and leaves every shard with its
StatefulSet, Service and Ingress, if and only if the StatefulSets are up to date, the shards below
their number have all their objects, and the others have none. -/
theorem retry_iff (w : Cluster) (a : Answers) (ha : Calm a) (hp : w.phase = .normal)
    (hlt : w.statefulSets.length < w.kvStore.spec.shards) :
    (reconcileFails a w = false ∧
        ∀ i < w.kvStore.spec.shards, HasAll w.kvStore.name i (reconcile a w).1) ↔
      Resumable w := by
  by_cases hout : outdated w = []
  · obtain ⟨hw, hf⟩ := reconcile_scaleUp ha hp hlt hout
    rw [hw, hf, ha.scaleUpFails_iff]
    constructor
    · rintro ⟨hfree, hall⟩
      refine ⟨hout, fun i hi => ?_, hfree⟩
      -- index `i` is not new, so its objects were there before
      refine ((ha.hasAll_scaleUp hfree i).1 (hall i (hi.trans hlt))).resolve_right fun hnew => ?_
      exact absurd (mem_newIndices.1 hnew).1 (not_le.2 hi)
    · rintro ⟨-, hbelow, hfree⟩
      refine ⟨hfree, fun i hi => (ha.hasAll_scaleUp hfree i).2 ?_⟩
      rcases lt_or_ge i w.statefulSets.length with hold | hnew
      · exact .inl (hbelow i hold)
      · exact .inr (mem_newIndices.2 ⟨hnew, hi⟩)
  · -- the pass brings a StatefulSet up to date, so as many StatefulSets as before exist after it
    refine iff_of_false ?_ fun h => hout h.outdated
    rintro ⟨-, hall⟩
    obtain ⟨f, hf, heq⟩ := reconcile_of_not_starts (a := a) hp fun hs => hout hs.outdated
    have hle := le_length_of_has (setName_injective w.kvStore.name) fun i hi =>
      (hall i hi).statefulSet
    rw [heq, sets_map hf, Cluster.sets, List.length_map] at hle
    omega

/-- The first pass of a store with two shards could not write the ConfigMap; the next one creates
all objects. -/
theorem retry_iff_create :
    ∃ s, machine.Reached (created "kv" ∅ ⟨2, 1⟩) s ∧ s.history.length = 1 ∧
      reconcileFails .ok s.cluster = false ∧
        ∀ i < s.cluster.kvStore.spec.shards,
          HasAll s.cluster.kvStore.name i (reconcile .ok s.cluster).1 := by
  refine ⟨_, Machine.Reached.of_run
    [.reconcile { Answers.ok with startStatus := false, getConfigMap := false }] rfl, rfl,
    (retry_iff _ .ok ⟨_, _, _, rfl⟩ rfl (by decide)).2 ⟨rfl, fun i hi => ?_, fun i _ _ => ?_⟩⟩
  · exact absurd hi (Nat.not_lt_zero i)
  · exact ⟨fun ⟨_, hx, _⟩ => absurd hx List.not_mem_nil,
      fun ⟨_, hx, _⟩ => absurd hx List.not_mem_nil, fun ⟨_, hx, _⟩ => absurd hx List.not_mem_nil⟩

/-- **A pass that stops half-way stops the next one.**  The first pass persists no status, creates
the Ingress of the first shard and fails to create its Service.  The next pass finds no StatefulSet,
starts again with that Ingress, and returns an error although no call fails for another reason. -/
theorem not_retry :
    ¬ ∀ s, machine.Reached (created "kv" ∅ ⟨1, 1⟩) s → s.cluster.phase = .normal →
      s.cluster.statefulSets.length < s.cluster.kvStore.spec.shards → ∀ a, Calm a →
        reconcileFails a s.cluster = false ∧ ∀ i < s.cluster.kvStore.spec.shards,
          HasAll s.cluster.kvStore.name i (reconcile a s.cluster).1 := by
  intro h
  have hr := h _ (Machine.Reached.of_run
    [.reconcile { Answers.ok with startStatus := false, createService := fun _ => false }] rfl) rfl
    (by decide) .ok ⟨_, _, _, rfl⟩
  exact absurd hr.1 (by decide)

end Kvctl

end ShardedKvs
