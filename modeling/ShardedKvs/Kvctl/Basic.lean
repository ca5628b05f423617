import Mathlib.Algebra.Ring.Int.Defs
import Mathlib.Data.Finmap
import ShardedKvs.Batch.Basic
import ShardedKvs.Config.Basic
import ShardedKvs.Machine.Basic

/-!
# The controller

`KVStoreReconciler.Reconcile` reads the `KVStore` object and the resources that it owns, does one
phase of a scale operation, and persists the outcome in the status of the object.  Every call to the
API server and to a shard can fail.

* `Cluster` : the objects that the API server holds.
* `Answers` : how the calls of one `Reconcile` end.
* `reconcile` : one pass, with the record of what the shards have answered in it (`Trace`).
* `reconcile_cases`, `prepareScale_cases` and so on : what a pass and its phases can do, from which
  the invariants of the controller are read off.
* `machine` : passes in any order with any answers, interleaved with admitted edits of the object
  and with replicas becoming ready.  The past passes are kept in `State.history`.

A call that fails has no effect.  `LastTransition`, the pod template and the ports, hosts and
annotations of the created resources are left out: nothing in the controller reads them.
-/

namespace ShardedKvs

namespace Kvctl

/-! ### The objects -/

/-- The labels of an object. -/
abbrev Labels := Finmap fun _ : String => String

/-- `kvctlv1.KVStoreSpec`. -/
structure KVStoreSpec where
  shards : ℕ
  replicas : ℕ
  deriving DecidableEq

/-- `kvctlv1.KVStoreStatus`. -/
structure KVStoreStatus where
  phase : Phase
  currentShards : ℕ
  targetShards : ℕ
  message : String
  deriving DecidableEq

/-- `kvctlv1.KVStore`. -/
structure KVStore where
  name : String
  labels : Labels
  spec : KVStoreSpec
  status : KVStoreStatus

/-- The name and the labels of an owned object; Services and Ingresses are no more than that. -/
structure ObjectMeta where
  name : String
  labels : Labels
  deriving DecidableEq

/-- `labels["group"]`. -/
def ObjectMeta.group (o : ObjectMeta) : String := (o.labels.lookup "group").getD ""

/-- The StatefulSet of a shard. -/
structure StatefulSet extends ObjectMeta where
  serviceName : String
  replicas : ℕ
  readyReplicas : ℕ
  deriving DecidableEq

/-- The `KVStore` object, the objects that it owns, and the contents of the ConfigMap. -/
structure Cluster where
  kvStore : KVStore
  statefulSets : List StatefulSet
  services : List ObjectMeta
  ingresses : List ObjectMeta
  configMap : Option KVStoreConfig

/-- How the calls of one `Reconcile` end: whether the calls to the API server succeed, and what the
shards answer. -/
structure Answers where
  getKVStore : Bool
  /-- The List at the start of `Reconcile`. -/
  listShards : Bool
  /-- The Update of a StatefulSet whose number of replicas is out of date. -/
  updateShard : Bool
  /-- The Lists in `GetShards`, `GetServices` and `GetIngresses`. -/
  getShards : Bool
  getServices : Bool
  getIngresses : Bool
  getConfigMap : Bool
  createConfigMap : Bool
  updateConfigMap : Bool
  createIngress : ℕ → Bool
  createService : ℕ → Bool
  createShard : ℕ → Bool
  deleteShard : String → Bool
  deleteIngress : String → Bool
  deleteService : String → Bool
  /-- The status update before the resources of a scale operation are written. -/
  startStatus : Bool
  /-- The status update at the end of a phase. -/
  updateStatus : Bool
  pauseWrites : String → Except String Bool
  redistributeKeys : String → Except String Int32
  resumeWrites : String → Except String Bool

/-- Every call succeeds, and the shards are done with their part. -/
def Answers.ok : Answers where
  getKVStore := true
  listShards := true
  updateShard := true
  getShards := true
  getServices := true
  getIngresses := true
  getConfigMap := true
  createConfigMap := true
  updateConfigMap := true
  createIngress _ := true
  createService _ := true
  createShard _ := true
  deleteShard _ := true
  deleteIngress _ := true
  deleteService _ := true
  startStatus := true
  updateStatus := true
  pauseWrites _ := .ok true
  redistributeKeys _ := .ok 0
  resumeWrites _ := .ok true

/-- What the controller has seen in one pass. -/
structure Trace where
  /-- The StatefulSets that it has seen with all replicas ready. -/
  ready : List StatefulSet
  /-- The shards that have answered `IsPaused: true`. -/
  paused : List StatefulSet
  pendingKeys : List (StatefulSet × Int32)
  /-- The shards that have answered `IsResumed: true`. -/
  resumed : List StatefulSet

/-- Nothing seen. -/
def Trace.none : Trace := ⟨[], [], [], []⟩

/-! ### Reading and writing objects -/

/-- `GetShards`: a List that fails reads as no shards. -/
def getShards (a : Answers) (w : Cluster) : List StatefulSet :=
  if a.getShards then w.statefulSets else []

/-- `r.Status().Update(ctx, &kvStore)`. -/
def updateStatus (ok : Bool) (k : KVStore) (w : Cluster) : Cluster :=
  if ok then { w with kvStore := { w.kvStore with status := k.status } } else w

/-- `UpdateConfigMap`; the flag says whether it succeeds. -/
def updateConfigMap (k : KVStore) (a : Answers) (w : Cluster) : Cluster × Bool :=
  let config := kvConfig k.name k.spec.replicas k.status.currentShards k.status.targetShards
  if !a.getConfigMap then (w, false)
  else match w.configMap with
    | none => if a.createConfigMap then ({ w with configMap := some config }, true) else (w, false)
    | some _ =>
      if a.updateConfigMap then ({ w with configMap := some config }, true) else (w, false)

/-- The labels of the objects of shard `i`; those of the `KVStore` object go on top. -/
def shardLabels (k : KVStore) (i : ℕ) : Labels :=
  k.labels ∪ ((∅ : Labels).insert "app" k.name).insert "group" (shardName k.name i)

/-- The name of the StatefulSet of shard `i`. -/
def setName (name : String) (i : ℕ) : String := shardName name i ++ "-replica"

/-- The name of the Ingress of shard `i`; the Service is named like the shard. -/
def ingressName (name : String) (i : ℕ) : String := shardName name i ++ "-ingress"

/-- The StatefulSet of shard `i`. -/
def shard (k : KVStore) (i : ℕ) : StatefulSet where
  name := setName k.name i
  labels := shardLabels k i
  serviceName := shardName k.name i
  replicas := k.spec.replicas
  readyReplicas := 0

/-- The Ingress of shard `i`. -/
def shardIngress (k : KVStore) (i : ℕ) : ObjectMeta :=
  ⟨ingressName k.name i, shardLabels k i⟩

/-- The Service of shard `i`. -/
def shardService (k : KVStore) (i : ℕ) : ObjectMeta := ⟨shardName k.name i, shardLabels k i⟩

/-- `for i := CurrentShards; i < TargetShards; i++`. -/
def newIndices (k : KVStore) : List ℕ :=
  List.range' k.status.currentShards (k.status.targetShards - k.status.currentShards)

/-- `SpinUpShards`; the flag says whether it succeeds. -/
def spinUpShards (k : KVStore) (a : Answers) (w : Cluster) : Cluster × Bool :=
  let r := createAll (fun x : StatefulSet => x.name) (shard k) a.createShard (newIndices k)
    w.statefulSets
  ({ w with statefulSets := r.1 }, r.2)

@[inherit_doc spinUpShards] def spinUpShardIngresses (k : KVStore) (a : Answers) (w : Cluster) :
    Cluster × Bool :=
  let r := createAll ObjectMeta.name (shardIngress k) a.createIngress (newIndices k) w.ingresses
  ({ w with ingresses := r.1 }, r.2)

@[inherit_doc spinUpShards] def spinUpShardServices (k : KVStore) (a : Answers) (w : Cluster) :
    Cluster × Bool :=
  let r := createAll ObjectMeta.name (shardService k) a.createService (newIndices k) w.services
  ({ w with services := r.1 }, r.2)

/-! ### The phases -/

/-- The object with another phase and message. -/
def KVStore.setPhase (k : KVStore) (phase : Phase) (message : String) : KVStore :=
  { k with status := { k.status with phase := phase, message := message } }

/-- The object with another message. -/
def KVStore.setMessage (k : KVStore) (message : String) : KVStore :=
  { k with status := { k.status with message := message } }

/-- The object with `CurrentShards = TargetShards`. -/
def KVStore.setCurrent (k : KVStore) : KVStore :=
  { k with status := { k.status with currentShards := k.status.targetShards } }

/-- `PrepareScale`. -/
def prepareScale (k : KVStore) (a : Answers) (w : Cluster) : Cluster × Trace :=
  let shards := getShards a w
  -- the loop returns at the first shard that is not ready
  let ready := shards.takeWhile fun x => x.readyReplicas = x.replicas
  let t := { Trace.none with ready := ready }
  if ready.length < shards.length then
    (updateStatus a.updateStatus (k.setMessage "Waiting for shards to be ready") w, t)
  else if k.status.currentShards = 0 then
    (updateStatus a.updateStatus (k.setPhase .normal "Ready").setCurrent w, t)
  else
    (updateStatus a.updateStatus (k.setPhase .stoppingWrites "Starting to disable writes") w, t)

/-- `StopWrites`. -/
def stopWrites (k : KVStore) (a : Answers) (w : Cluster) : Cluster × Trace :=
  let r := askAll (fun x => a.pauseWrites x.serviceName) (getShards a w)
  let t := { Trace.none with paused := r.1 }
  match r.2 with
  | .failed err =>
    (updateStatus a.updateStatus
      (k.setMessage ("Failed to pause writes: " ++ err ++ ". Retrying")) w, t)
  | .waiting =>
    (updateStatus a.updateStatus (k.setMessage "Waiting for shards to pause writes") w, t)
  | .all =>
    (updateStatus a.updateStatus
      (k.setPhase .redistributingKeys "Starting to redistribute keys") w, t)

/-- `RedistributeKeys`: the answers are added up. -/
def redistributeKeys (k : KVStore) (a : Answers) (w : Cluster) : Cluster × Trace :=
  let r := pollAll (fun x => a.redistributeKeys x.serviceName) (getShards a w)
  let t := { Trace.none with pendingKeys := r.1 }
  match r.2 with
  | some err =>
    (updateStatus a.updateStatus
      (k.setMessage ("Failed to initiate key redistribution: " ++ err)) w, t)
  | none =>
    let pendingKeys := (r.1.map fun x => x.2.toInt).sum
    if pendingKeys = 0 then
      (updateStatus a.updateStatus
        (k.setPhase .finalizingScale "Starting to finalize scaling operation") w, t)
    else
      (updateStatus a.updateStatus
        (k.setMessage ("Pending keys to be redistributed: " ++ toString pendingKeys)) w, t)

/-- The end of `FinalizeScale`. -/
def resumeAfterScale (k : KVStore) (a : Answers) (w : Cluster) : Cluster :=
  let k' := (k.setPhase .resumingWrites "Starting to resume writes").setCurrent
  let r := updateConfigMap k' a w
  if r.2 then updateStatus a.updateStatus k' r.1 else r.1

/-- The groups from `TargetShards` to `CurrentShards`. -/
def groupsToBeDeleted (k : KVStore) : List String :=
  ((List.range k.status.currentShards).filter fun i => k.status.targetShards ≤ i).map
    (shardName k.name)

/-- `slices.Contains(groupsToBeDeleted, labels["group"])`. -/
def doomed (k : KVStore) (o : ObjectMeta) : Bool := o.group ∈ groupsToBeDeleted k

/-- Delete the doomed objects that a List has returned; a List that fails returns none of them. -/
def deleteListed {α : Type} (listed : Bool) (p ok : α → Bool) (xs : List α) : List α × Bool :=
  if listed then deleteAll p ok xs else (xs, true)

/-- The three loops of `FinalizeScale` that delete the objects of the doomed groups; the flag says
whether they succeed. -/
def deleteGroups (k : KVStore) (a : Answers) (w : Cluster) : Cluster × Bool :=
  let r₁ := deleteListed a.getShards (fun x : StatefulSet => doomed k x.toObjectMeta)
    (fun x => a.deleteShard x.name) w.statefulSets
  let w := { w with statefulSets := r₁.1 }
  if !r₁.2 then (w, false)
  else
    let r₂ := deleteListed a.getIngresses (doomed k) (fun x => a.deleteIngress x.name) w.ingresses
    let w := { w with ingresses := r₂.1 }
    if !r₂.2 then (w, false)
    else
      let r₃ := deleteListed a.getServices (doomed k) (fun x => a.deleteService x.name) w.services
      ({ w with services := r₃.1 }, r₃.2)

/-- `FinalizeScale`. -/
def finalizeScale (k : KVStore) (a : Answers) (w : Cluster) : Cluster :=
  if k.status.currentShards < k.status.targetShards then resumeAfterScale k a w
  else
    let r := deleteGroups k a w
    if !r.2 then r.1 else resumeAfterScale k a r.1

/-- `ResumeWrites`. -/
def resumeWrites (k : KVStore) (a : Answers) (w : Cluster) : Cluster × Trace :=
  let r := askAll (fun x => a.resumeWrites x.serviceName) (getShards a w)
  let t := { Trace.none with resumed := r.1 }
  match r.2 with
  | .failed err =>
    (updateStatus a.updateStatus
      (k.setMessage ("Failed to resume writes: " ++ err ++ ". Retrying")) w, t)
  | .waiting =>
    (updateStatus a.updateStatus (k.setMessage "Waiting for shards to resume writes") w, t)
  | .all => (updateStatus a.updateStatus (k.setPhase .normal "Ready").setCurrent w, t)

/-! ### One pass -/

/-- The object at the start of a scale operation. -/
def Cluster.startScale (w : Cluster) : KVStore :=
  { w.kvStore with status :=
      ⟨.preparingScale, w.statefulSets.length, w.kvStore.spec.shards, "Spinning up shards"⟩ }

/-- The calls that create the objects of the new shards. -/
def spinUp (k : KVStore) (a : Answers) (w : Cluster) : Cluster :=
  let r₁ := spinUpShardIngresses k a w
  if !r₁.2 then r₁.1
  else
    let r₂ := spinUpShardServices k a r₁.1
    if !r₂.2 then r₂.1 else (spinUpShards k a r₂.1).1

/-- The branch of `Reconcile` with fewer shards than wanted. -/
def scaleUp (a : Answers) (w : Cluster) : Cluster :=
  let k := w.startScale
  -- the error of the status update is not looked at
  let r := updateConfigMap k a (updateStatus a.startStatus k w)
  if !r.2 then r.1 else spinUp k a r.1

/-- The branch of `Reconcile` with more shards than wanted; it goes on with `PrepareScale`. -/
def scaleDown (a : Answers) (w : Cluster) : Cluster × Trace :=
  let k := w.startScale
  let r := updateConfigMap k a (updateStatus a.startStatus k w)
  if !r.2 then (r.1, .none) else prepareScale k a r.1

/-- The shards whose number of replicas is out of date. -/
def outdated (w : Cluster) : List StatefulSet :=
  w.statefulSets.filter fun x => x.replicas ≠ w.kvStore.spec.replicas

/-- The phase of `Reconcile`, once the shards have been listed and are up to date. -/
def reconcilePhase (a : Answers) (w : Cluster) : Cluster × Trace :=
  match w.kvStore.status.phase with
  | .normal =>
    if w.statefulSets.length < w.kvStore.spec.shards then (scaleUp a w, .none)
    else if w.kvStore.spec.shards < w.statefulSets.length then scaleDown a w
    else (w, .none)
  | .preparingScale => prepareScale w.kvStore a w
  | .stoppingWrites => stopWrites w.kvStore a w
  | .redistributingKeys => redistributeKeys w.kvStore a w
  | .resumingWrites => resumeWrites w.kvStore a w
  | .finalizingScale => (finalizeScale w.kvStore a w, .none)
  -- the switch has no case for it
  | .scaleComplete => (w, .none)

/-- `Reconcile`. -/
def reconcile (a : Answers) (w : Cluster) : Cluster × Trace :=
  if !a.getKVStore || !a.listShards then (w, .none)
  else match outdated w with
    | x :: _ =>
      -- one shard a pass, before anything else
      if a.updateShard then
        ({ w with statefulSets := w.statefulSets.map fun y =>
            if y.name = x.name then { y with replicas := w.kvStore.spec.replicas } else y }, .none)
      else (w, .none)
    | [] => reconcilePhase a w

/-- What a pass can do: change numbers of replicas at most, or go on to its phase. -/
theorem reconcile_cases (a : Answers) (w : Cluster) :
    (∃ f : StatefulSet → StatefulSet, (∀ x, (f x).toObjectMeta = x.toObjectMeta) ∧
        reconcile a w = ({ w with statefulSets := w.statefulSets.map f }, .none)) ∨
      a.getKVStore = true ∧ outdated w = [] ∧ reconcile a w = reconcilePhase a w := by
  have hid : w = { w with statefulSets := w.statefulSets.map id } := by rw [List.map_id]
  unfold reconcile
  split
  · exact .inl ⟨id, fun _ => rfl, by rw [← hid]⟩
  · rename_i hget
    split
    · split
      · refine .inl ⟨_, fun x => ?_, rfl⟩
        split_ifs <;> rfl
      · exact .inl ⟨id, fun _ => rfl, by rw [← hid]⟩
    · rename_i hout
      simp only [Bool.or_eq_true, Bool.not_eq_true', not_or, Bool.not_eq_false] at hget
      exact .inr ⟨hget.1, hout, rfl⟩

/-! ### What the phases persist -/

/-- `PrepareScale` persists a message, the end of the first scale operation of a store, or the next
phase of one that is not empty. -/
theorem prepareScale_cases (k : KVStore) (a : Answers) (w : Cluster) :
    (∃ message,
        (prepareScale k a w).1 = updateStatus a.updateStatus (k.setMessage message) w) ∨
      (k.status.currentShards = 0 ∧ (prepareScale k a w).1 =
        updateStatus a.updateStatus (k.setPhase .normal "Ready").setCurrent w) ∨
      k.status.currentShards ≠ 0 ∧ (prepareScale k a w).1 =
        updateStatus a.updateStatus (k.setPhase .stoppingWrites "Starting to disable writes")
          w := by
  unfold prepareScale
  simp only
  split_ifs with hlt hzero
  · exact .inl ⟨_, rfl⟩
  · exact .inr (.inl ⟨hzero, rfl⟩)
  · exact .inr (.inr ⟨hzero, rfl⟩)

/-- `StopWrites` persists a message, or the next phase after all listed shards have paused. -/
theorem stopWrites_cases (k : KVStore) (a : Answers) (w : Cluster) :
    (∃ message, (stopWrites k a w).1 = updateStatus a.updateStatus (k.setMessage message) w) ∨
      (stopWrites k a w).2.paused = getShards a w ∧ (stopWrites k a w).1 =
        updateStatus a.updateStatus
          (k.setPhase .redistributingKeys "Starting to redistribute keys") w := by
  unfold stopWrites
  simp only
  split
  · exact .inl ⟨_, rfl⟩
  · exact .inl ⟨_, rfl⟩
  · exact .inr ⟨askAll_of_all ‹_›, rfl⟩

/-- `RedistributeKeys` persists a message or the next phase. -/
theorem redistributeKeys_cases (k : KVStore) (a : Answers) (w : Cluster) :
    (∃ message,
        (redistributeKeys k a w).1 = updateStatus a.updateStatus (k.setMessage message) w) ∨
      (redistributeKeys k a w).1 = updateStatus a.updateStatus
        (k.setPhase .finalizingScale "Starting to finalize scaling operation") w := by
  unfold redistributeKeys
  simp only
  split
  · exact .inl ⟨_, rfl⟩
  · split_ifs
    · exact .inr rfl
    · exact .inl ⟨_, rfl⟩

/-- `ResumeWrites` persists a message, or the end after all listed shards have resumed. -/
theorem resumeWrites_cases (k : KVStore) (a : Answers) (w : Cluster) :
    (∃ message, (resumeWrites k a w).1 = updateStatus a.updateStatus (k.setMessage message) w) ∨
      (resumeWrites k a w).2.resumed = getShards a w ∧ (resumeWrites k a w).1 =
        updateStatus a.updateStatus (k.setPhase .normal "Ready").setCurrent w := by
  unfold resumeWrites
  simp only
  split
  · exact .inl ⟨_, rfl⟩
  · exact .inl ⟨_, rfl⟩
  · exact .inr ⟨askAll_of_all ‹_›, rfl⟩

/-! ### What the calls leave alone -/

/-- The owned objects. -/
def Cluster.objects (w : Cluster) : List StatefulSet × List ObjectMeta × List ObjectMeta :=
  (w.statefulSets, w.services, w.ingresses)

theorem Cluster.statefulSets_eq {w w' : Cluster} (h : w'.objects = w.objects) :
    w'.statefulSets = w.statefulSets := congrArg Prod.fst h

section Objects

variable {k : KVStore} {a : Answers} {w : Cluster}

@[simp] theorem objects_updateStatus (ok : Bool) : (updateStatus ok k w).objects = w.objects := by
  unfold updateStatus
  split <;> rfl

@[simp] theorem objects_updateConfigMap : (updateConfigMap k a w).1.objects = w.objects := by
  unfold updateConfigMap
  simp only
  split
  · rfl
  · split <;> split <;> rfl

@[simp] theorem objects_prepareScale : (prepareScale k a w).1.objects = w.objects := by
  rcases prepareScale_cases k a w with ⟨message, heq⟩ | ⟨-, heq⟩ | ⟨-, heq⟩ <;> rw [heq] <;>
    exact objects_updateStatus _

@[simp] theorem objects_resumeAfterScale : (resumeAfterScale k a w).objects = w.objects := by
  unfold resumeAfterScale
  simp only
  split
  · rw [objects_updateStatus, objects_updateConfigMap]
  · exact objects_updateConfigMap

theorem mem_groupsToBeDeleted {g : String} :
    g ∈ groupsToBeDeleted k ↔
      ∃ j < k.status.currentShards, k.status.targetShards ≤ j ∧ g = shardName k.name j := by
  unfold groupsToBeDeleted
  simp only [List.mem_map, List.mem_filter, List.mem_range, decide_eq_true_eq]
  constructor
  · rintro ⟨j, ⟨hj, hle⟩, rfl⟩
    exact ⟨j, hj, hle, rfl⟩
  · rintro ⟨j, hj, hle, rfl⟩
    exact ⟨j, ⟨hj, hle⟩, rfl⟩

theorem doomed_iff {o : ObjectMeta} :
    doomed k o = true ↔
      ∃ j < k.status.currentShards, k.status.targetShards ≤ j ∧ o.group = shardName k.name j := by
  rw [doomed, decide_eq_true_eq, mem_groupsToBeDeleted]

/-- The group of a shard tells its index, so an object of that group goes with its shard. -/
theorem doomed_iff_of_group {o : ObjectMeta} {i : ℕ} (h : o.group = shardName k.name i) :
    doomed k o = true ↔ i < k.status.currentShards ∧ k.status.targetShards ≤ i := by
  rw [doomed_iff]
  constructor
  · rintro ⟨j, hj, hle, hgroup⟩
    obtain rfl := shardName_injective k.name (h.symm.trans hgroup)
    exact ⟨hj, hle⟩
  · rintro ⟨hi, hle⟩
    exact ⟨i, hi, hle, h⟩

/-- What the deletions of a scale-down do to a list of objects. -/
structure Swept {α : Type} (p : α → Bool) (xs ys : List α) : Prop where
  sublist : ys.Sublist xs
  kept : ∀ x ∈ xs, p x = false → x ∈ ys

theorem Swept.refl {α : Type} (p : α → Bool) (xs : List α) : Swept p xs xs :=
  ⟨List.Sublist.refl xs, fun _ hx _ => hx⟩

theorem swept_deleteListed {α : Type} (listed : Bool) (p ok : α → Bool) (xs : List α) :
    Swept p xs (deleteListed listed p ok xs).1 := by
  unfold deleteListed
  split
  · exact ⟨deleteAll_sublist xs, fun _ hx hp => mem_deleteAll hx hp⟩
  · exact Swept.refl p xs

/-- The deletions touch nothing but the objects of the doomed groups. -/
structure SweptCluster (k : KVStore) (w w' : Cluster) : Prop where
  kvStore : w'.kvStore = w.kvStore
  configMap : w'.configMap = w.configMap
  statefulSets : Swept (fun x : StatefulSet => doomed k x.toObjectMeta) w.statefulSets
    w'.statefulSets
  services : Swept (doomed k) w.services w'.services
  ingresses : Swept (doomed k) w.ingresses w'.ingresses

theorem swept_deleteGroups : SweptCluster k w (deleteGroups k a w).1 := by
  unfold deleteGroups
  simp only
  split
  · exact ⟨rfl, rfl, swept_deleteListed .., .refl .., .refl ..⟩
  · split
    · exact ⟨rfl, rfl, swept_deleteListed .., .refl .., swept_deleteListed ..⟩
    · exact ⟨rfl, rfl, swept_deleteListed .., swept_deleteListed .., swept_deleteListed ..⟩

theorem deleteGroups_of_forall (hshards : ∀ x, a.deleteShard x = true)
    (hservices : ∀ x, a.deleteService x = true) (hingresses : ∀ x, a.deleteIngress x = true) :
    (deleteGroups k a w).2 = true := by
  have hdelete {α : Type} {listed : Bool} {p ok : α → Bool} (hok : ∀ x, ok x = true)
      (xs : List α) : (deleteListed listed p ok xs).2 = true := by
    cases listed with
    | false => rfl
    | true => exact deleteAll_of_forall hok xs
  unfold deleteGroups
  simp only [hdelete fun x : StatefulSet => hshards x.name,
    hdelete fun x : ObjectMeta => hservices x.name,
    hdelete fun x : ObjectMeta => hingresses x.name, Bool.not_true, Bool.false_eq_true, if_false]

theorem deleteListed_of_true {α : Type} {p ok : α → Bool} {xs : List α}
    (h : (deleteListed true p ok xs).2 = true) : ∀ x ∈ (deleteListed true p ok xs).1, p x = false :=
  fun _ hx => deleteAll_of_true h hx

/-- When the Lists and the deletions succeed, no object of a doomed group is left. -/
theorem deleteGroups_of_true (hshards : a.getShards = true) (hservices : a.getServices = true)
    (hingresses : a.getIngresses = true) (h : (deleteGroups k a w).2 = true) :
    (∀ x ∈ (deleteGroups k a w).1.statefulSets, doomed k x.toObjectMeta = false) ∧
      (∀ x ∈ (deleteGroups k a w).1.services, doomed k x = false) ∧
      ∀ x ∈ (deleteGroups k a w).1.ingresses, doomed k x = false := by
  unfold deleteGroups at h ⊢
  simp only [hshards, hservices, hingresses] at h ⊢
  split_ifs at h ⊢ with h₁ h₂
  rw [Bool.not_eq_true, Bool.not_eq_false'] at h₁ h₂
  exact ⟨deleteListed_of_true h₁, deleteListed_of_true h, deleteListed_of_true h₂⟩

end Objects

/-! ### Runs -/

/-- One past pass. -/
structure Pass where
  before : Cluster
  trace : Trace
  after : Cluster

/-- The cluster and the passes so far. -/
structure State where
  cluster : Cluster
  history : List Pass

/-- What happens to the objects without the controller. -/
inductive Change where
  /-- The user changes the spec or the labels of the `KVStore` object. -/
  | edit (spec : KVStoreSpec) (labels : Labels)
  /-- The number of ready replicas of a shard changes. -/
  | ready (name : String) (readyReplicas : ℕ)
  /-- The API server lists the objects in another order. -/
  | reorder (statefulSets : List StatefulSet) (services ingresses : List ObjectMeta)

/-- The steps of the controller and its environment. -/
inductive Label where
  | reconcile (a : Answers)
  | change (c : Change)

/-- `ValidateUpdate`. -/
def validateUpdate (old : KVStore) : Except String Unit :=
  if old.status.phase ≠ .normal then .error "cannot change while shards are redistributing"
  else .ok ()

/-- The API server admits a change of the object: the webhook allows it, and the new spec keeps the
minima of the CRD. -/
def admitted (old : KVStore) (spec : KVStoreSpec) : Bool :=
  match validateUpdate old with
  | .error _ => false
  | .ok () => 1 ≤ spec.shards ∧ 1 ≤ spec.replicas

/-- The objects after a change, if it is possible. -/
def Cluster.change (w : Cluster) : Change → Option Cluster
  | .edit spec labels =>
    if admitted w.kvStore spec then
      some { w with kvStore := { w.kvStore with spec := spec, labels := labels } }
    else none
  | .ready name n =>
    some { w with statefulSets := w.statefulSets.map fun x =>
      if x.name = name then { x with readyReplicas := n } else x }
  | .reorder statefulSets services ingresses =>
    if statefulSets.Perm w.statefulSets ∧ services.Perm w.services ∧
        ingresses.Perm w.ingresses then
      some { w with statefulSets := statefulSets, services := services, ingresses := ingresses }
    else none

/-- Everything that a change can do. -/
theorem Cluster.change_cases {w w' : Cluster} {c : Change} (h : w.change c = some w') :
    (∃ spec labels, c = .edit spec labels ∧ admitted w.kvStore spec = true ∧
        w' = { w with kvStore := { w.kvStore with spec := spec, labels := labels } }) ∨
      (∃ name n, c = .ready name n ∧ w' = { w with statefulSets := w.statefulSets.map fun x =>
        if x.name = name then { x with readyReplicas := n } else x }) ∨
      ∃ xs ys zs, c = .reorder xs ys zs ∧ xs.Perm w.statefulSets ∧ ys.Perm w.services ∧
        zs.Perm w.ingresses ∧
        w' = { w with statefulSets := xs, services := ys, ingresses := zs } := by
  cases c with
  | edit spec labels =>
    simp only [change] at h
    split_ifs at h with hadmitted
    cases h
    exact .inl ⟨spec, labels, rfl, hadmitted, rfl⟩
  | ready name n =>
    cases h
    exact .inr (.inl ⟨name, n, rfl, rfl⟩)
  | reorder xs ys zs =>
    simp only [change] at h
    split_ifs at h with hperm
    cases h
    exact .inr (.inr ⟨xs, ys, zs, rfl, hperm.1, hperm.2.1, hperm.2.2, rfl⟩)

/-- One step. -/
def next (s : State) : Label → Option State
  | .reconcile a =>
    let r := reconcile a s.cluster
    some ⟨r.1, s.history ++ [⟨s.cluster, r.2, r.1⟩]⟩
  | .change c => (s.cluster.change c).map fun w => { s with cluster := w }

/-- Every order of passes, edits and changes of readiness. -/
def machine : Machine State Label := ⟨next⟩

/-- A `KVStore` object that has just been created. -/
def created (name : String) (labels : Labels) (spec : KVStoreSpec) : State where
  cluster :=
    { kvStore := ⟨name, labels, spec, ⟨.normal, 0, 0, ""⟩⟩
      statefulSets := []
      services := []
      ingresses := []
      configMap := none }
  history := []

end Kvctl

end ShardedKvs
