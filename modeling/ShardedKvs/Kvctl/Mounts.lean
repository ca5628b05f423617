import Mathlib.Data.List.Basic
import ShardedKvs.Kvctl.Stock

/-!
# The configuration behind the count of pending keys

`replicaRpcServer.RedistributeKeys` builds the new ring from the `newShards` of the mounted
configuration.  That there are any was looked at in `PauseWrites`, by the replica that led the shard
then.  Another replica may have mounted an older version of the ConfigMap; it builds a ring without
members, which ends its process.

* `Mounts` : the controller, the versions of the ConfigMap, and the version that each replica has
  mounted.
* `Mounts.machine` : passes of the controller whose calls are served by any replicas, mounts that
  move on in order, and calls that run after the controller has given them up.
* `phase_reconcilePhase` : the phases follow each other in order.
* `Mounts.Current` : the replicas that answer a pause or a count have mounted the contents of the
  ConfigMap, and the shards are listed before the phase leaves `StoppingWrites`.
* `Mounts.counts_of_current` : **in such a run no count builds an empty ring**.
* `Mounts.not_counts` : the leader changes after the pause, to a replica whose mount is late.
-/

namespace ShardedKvs

namespace Kvctl

/-- The controller and the mounted configurations of the replicas `R`. -/
structure Mounts (R : Type*) where
  control : State
  /-- What the ConfigMap has contained so far, in order; nothing before it is created. -/
  versions : List (Option KVStoreConfig)
  /-- The version that each replica has mounted. -/
  mount : R → ℕ
  /-- The replicas that still have a call of `RedistributeKeys` without an answer. -/
  unanswered : List R
  /-- The `newShards` from which each call of `RedistributeKeys` has built its ring, whether or not
  the call was answered. -/
  counts : List (List KVStoreShard)

namespace Mounts

variable {R : Type*}

/-- The objects that the API server holds. -/
def cluster (s : Mounts R) : Cluster := s.control.cluster

/-- `ReadConfig` on `r`; without a mounted configuration the process ends. -/
def readConfig (s : Mounts R) (r : R) : Option KVStoreConfig := (s.versions[s.mount r]?).join

/-- The process ends in the middle of a call, and is started again.  The caller sees that the
connection has broken. -/
def processEnds {α : Type} : Except String α := .error "connection closed"

/-- `replicaRpcServer.PauseWrites` on `r`, when `SetWritesEnabled(false)` succeeds. -/
def pauseWrites (s : Mounts R) (r : R) : Except String Bool :=
  match s.readConfig r with
  | none => processEnds
  | some kvConfig => if kvConfig.newShards.length = 0 then .ok false else .ok true

/-- `replicaRpcServer.RedistributeKeys` on `r`, which counts `pendingKeys`.  A ring without members
cannot be built: `consistent.New` panics. -/
def redistributeKeys (s : Mounts R) (r : R) (pendingKeys : Int32) : Except String Int32 :=
  match s.readConfig r with
  | none => processEnds
  | some kvConfig => if kvConfig.newShards.length = 0 then processEnds else .ok pendingKeys

/-- The answers of a pass whose calls are served by the leaders `leader`.  A call that fails in `a`
does not reach its leader, or its answer is lost. -/
def answers (s : Mounts R) (leader : String → R) (a : Answers) : Answers :=
  { a with
    pauseWrites := fun x => (a.pauseWrites x).bind fun _ => s.pauseWrites (leader x)
    redistributeKeys := fun x => (a.redistributeKeys x).bind fun n =>
      s.redistributeKeys (leader x) n }

/-- The pass gets to call `RedistributeKeys` on the shards. -/
def polls (a : Answers) (w : Cluster) : Bool :=
  a.getKVStore && a.listShards && (outdated w).isEmpty && w.phase = .redistributingKeys

/-- The shard whose call has ended the round without an answer. -/
def givenUp (a : Answers) (w : Cluster) : Option StatefulSet :=
  if polls a w then (getShards a w)[(reconcile a w).2.pendingKeys.length]? else none

/-- The call to a shard does not fail on its way. -/
def reaches (a : Answers) (x : StatefulSet) : Bool := (a.redistributeKeys x.serviceName).isOk

/-- The shards on which `RedistributeKeys` has run in a pass: those that have answered, and one
whose process has ended instead. -/
def called (s : Mounts R) (leader : String → R) (a : Answers) : List StatefulSet :=
  (reconcile (s.answers leader a) s.cluster).2.pendingKeys.map Prod.fst ++
    (givenUp (s.answers leader a) s.cluster).toList.filter (reaches a)

/-- The steps of the controller, the replicas and the environment. -/
inductive Label (R : Type*) where
  /-- A pass whose calls to the shards are served by the given leaders. -/
  | reconcile (a : Answers) (leader : String → R)
  /-- An edit, a change of readiness, or another order of the lists. -/
  | environment (c : Change)
  /-- The mounted configuration of `r` moves to the version `i`. -/
  | mount (r : R) (i : ℕ)
  /-- A call that has been given up runs on `r`. -/
  | late (r : R)

variable [DecidableEq R]

/-- One step. -/
def next (s : Mounts R) : Label R → Option (Mounts R)
  | .reconcile a leader =>
    let a' := s.answers leader a
    let r := reconcile a' s.cluster
    some {
      control := ⟨r.1, s.control.history ++ [⟨s.cluster, r.2, r.1⟩]⟩
      versions := if r.1.configMap = s.cluster.configMap then s.versions
        else s.versions ++ [r.1.configMap]
      mount := s.mount
      unanswered := s.unanswered ++
        ((givenUp a' s.cluster).toList.filter fun x => !reaches a x).map fun x =>
          leader x.serviceName
      counts := s.counts ++
        ((s.called leader a).filterMap fun x => s.readConfig (leader x.serviceName)).map
          KVStoreConfig.newShards }
  | .environment c =>
    (s.control.cluster.change c).map fun w => { s with control := { s.control with cluster := w } }
  | .mount r i =>
    -- versions may be skipped, but never go back
    if s.mount r ≤ i ∧ i < s.versions.length then
      some { s with mount := Function.update s.mount r i }
    else none
  | .late r =>
    if r ∈ s.unanswered then
      some { s with
        unanswered := s.unanswered.erase r
        counts := s.counts ++ (s.readConfig r).toList.map KVStoreConfig.newShards }
    else none

/-- Every order of passes, elections, mounts and late calls. -/
def machine : Machine (Mounts R) (Label R) := ⟨next⟩

omit [DecidableEq R] in
/-- A `KVStore` object that has just been created. -/
def created (name : String) (labels : Labels) (spec : KVStoreSpec) : Mounts R where
  control := Kvctl.created name labels spec
  versions := [none]
  mount _ := 0
  unanswered := []
  counts := []

/-- The replicas that answer a pause or a count have mounted the contents of the ConfigMap, a round
of pauses lists the shards, and a call that has been given up runs before the phase moves on. -/
def Current (s : Mounts R) : Label R → Prop
  | .reconcile a leader =>
    (s.cluster.phase = .stoppingWrites → a.getShards = true) ∧
      (s.cluster.phase = .stoppingWrites ∨ s.cluster.phase = .redistributingKeys →
        ∀ x ∈ s.cluster.statefulSets,
          s.readConfig (leader x.serviceName) = s.cluster.configMap)
  | .late r => s.cluster.phase = .redistributingKeys ∧ s.readConfig r = s.cluster.configMap
  | _ => True

end Mounts

/-! ### The phases -/

/-- The phases that can be persisted after a pass that has found the given one. -/
def successors : Phase → List Phase
  | .normal => [.normal, .preparingScale, .stoppingWrites]
  | .preparingScale => [.preparingScale, .stoppingWrites, .normal]
  | .stoppingWrites => [.stoppingWrites, .redistributingKeys]
  | .redistributingKeys => [.redistributingKeys, .finalizingScale]
  | .finalizingScale => [.finalizingScale, .resumingWrites]
  | .resumingWrites => [.resumingWrites, .normal]
  | .scaleComplete => [.scaleComplete]

theorem mem_successors (p : Phase) : p ∈ successors p := by cases p <;> decide

section Phases

variable {k : KVStore} {a : Answers} {w : Cluster}

/-- A status update persists one of the two phases at hand. -/
theorem phase_updateStatus_mem {ok : Bool} {ps : List Phase} (hk : k.status.phase ∈ ps)
    (hw : w.phase ∈ ps) : (updateStatus ok k w).phase ∈ ps := by
  rcases phase_updateStatus (k := k) (w := w) ok with h | h
  · exact h ▸ hk
  · exact h ▸ hw

theorem phase_prepareScale_mem {ps : List Phase} (hk : k.status.phase ∈ ps) (hw : w.phase ∈ ps)
    (hnormal : .normal ∈ ps) (hstop : .stoppingWrites ∈ ps) :
    (prepareScale k a w).1.phase ∈ ps := by
  rcases prepareScale_cases k a w with ⟨message, heq⟩ | ⟨-, heq⟩ | ⟨-, heq⟩ <;> rw [heq]
  · exact phase_updateStatus_mem hk hw
  · exact phase_updateStatus_mem hnormal hw
  · exact phase_updateStatus_mem hstop hw

theorem phase_finalizeScale : (finalizeScale w.kvStore a w).phase = .resumingWrites ∨
    (finalizeScale w.kvStore a w).phase = w.phase := by
  have hphase {w' : Cluster} (h : w'.kvStore = w.kvStore) : w'.phase = w.phase :=
    congrArg (fun k : KVStore => k.status.phase) h
  have hs := (swept_deleteGroups (k := w.kvStore) (a := a) (w := w)).kvStore
  unfold finalizeScale
  simp only
  split_ifs
  · exact (kvStore_resumeAfterScale w.kvStore a w).symm.imp_right hphase
  · exact .inr (hphase hs)
  · exact (kvStore_resumeAfterScale w.kvStore a _).symm.imp_right fun h => hphase (h.trans hs)

theorem phase_scaleDown (hp : w.phase = .normal) :
    (scaleDown a w).1.phase ∈ successors .normal := by
  have hstart : (updateConfigMap w.startScale a
      (updateStatus a.startStatus w.startScale w)).1.phase ∈ successors .normal := by
    rcases phase_startScale (a := a) (w := w) with hs | hs <;> rw [hs]
    · decide
    · rw [hp]; decide
  unfold scaleDown
  simp only
  split_ifs
  · exact hstart
  · have hk : Phase.preparingScale ∈ successors .normal := by decide
    exact phase_prepareScale_mem hk hstart (by decide) (by decide)

/-- **The phases follow each other in order**, whatever the calls of a pass return. -/
theorem phase_reconcilePhase (a : Answers) (w : Cluster) :
    (reconcilePhase a w).1.phase ∈ successors w.phase := by
  have hphase : w.phase = w.kvStore.status.phase := rfl
  unfold reconcilePhase
  cases hp : w.kvStore.status.phase with
  | normal =>
    rw [hp] at hphase
    simp only
    split_ifs
    · rcases phase_scaleUp (a := a) (w := w) with hs | hs <;> rw [hs]
      · rw [hphase]; decide
      · exact mem_successors w.phase
    · rw [hphase]
      exact phase_scaleDown hphase
    · exact mem_successors w.phase
  | preparingScale =>
    rw [hp] at hphase
    have hstay := mem_successors w.phase
    exact phase_prepareScale_mem hstay hstay (by rw [hphase]; decide) (by rw [hphase]; decide)
  | stoppingWrites =>
    rw [hp] at hphase
    have hnext : Phase.redistributingKeys ∈ successors w.phase := by rw [hphase]; decide
    rcases stopWrites_cases w.kvStore a w with ⟨message, heq⟩ | ⟨-, heq⟩ <;> simp only [heq]
    · rw [phase_setMessage]
      exact mem_successors w.phase
    · exact phase_updateStatus_mem hnext (mem_successors w.phase)
  | redistributingKeys =>
    rw [hp] at hphase
    have hnext : Phase.finalizingScale ∈ successors w.phase := by rw [hphase]; decide
    rcases redistributeKeys_cases w.kvStore a w with ⟨message, heq⟩ | heq <;> simp only [heq]
    · rw [phase_setMessage]
      exact mem_successors w.phase
    · exact phase_updateStatus_mem hnext (mem_successors w.phase)
  | finalizingScale =>
    rw [hp] at hphase
    rcases phase_finalizeScale (a := a) (w := w) with hs | hs <;> simp only [hs]
    · rw [hphase]; decide
    · exact mem_successors w.phase
  | resumingWrites =>
    rw [hp] at hphase
    have hnext : Phase.normal ∈ successors w.phase := by rw [hphase]; decide
    rcases resumeWrites_cases w.kvStore a w with ⟨message, heq⟩ | ⟨-, heq⟩ <;> simp only [heq]
    · rw [phase_setMessage]
      exact mem_successors w.phase
    · exact phase_updateStatus_mem hnext (mem_successors w.phase)
  | scaleComplete => exact mem_successors w.phase

theorem reconcilePhase_of_stopping (hp : w.phase = .stoppingWrites) :
    reconcilePhase a w = stopWrites w.kvStore a w := by
  rw [reconcilePhase, show w.kvStore.status.phase = .stoppingWrites from hp]

theorem reconcilePhase_of_redistributing (hp : w.phase = .redistributingKeys) :
    reconcilePhase a w = redistributeKeys w.kvStore a w := by
  rw [reconcilePhase, show w.kvStore.status.phase = .redistributingKeys from hp]

/-- **How the phase gets to `RedistributingKeys`**: it was there before, or all listed shards have
paused.  The ConfigMap stays as it is. -/
theorem redistributing_reconcilePhase (h : (reconcilePhase a w).1.phase = .redistributingKeys) :
    (reconcilePhase a w).1.configMap = w.configMap ∧
      (w.phase = .redistributingKeys ∨
        w.phase = .stoppingWrites ∧ (stopWrites w.kvStore a w).2.paused = getShards a w) := by
  have hfrom : w.phase = .redistributingKeys ∨ w.phase = .stoppingWrites := by
    have hmem := phase_reconcilePhase a w
    rw [h] at hmem
    revert hmem
    generalize w.phase = p
    cases p <;> decide
  rcases hfrom with hp | hp
  · refine ⟨?_, .inl hp⟩
    rw [reconcilePhase_of_redistributing hp]
    rcases redistributeKeys_cases w.kvStore a w with ⟨message, heq⟩ | heq <;> rw [heq] <;>
      exact configMap_updateStatus _
  · rw [reconcilePhase_of_stopping hp] at h ⊢
    rcases stopWrites_cases w.kvStore a w with ⟨message, heq⟩ | ⟨hpaused, heq⟩
    · -- a message is no reason to leave the phase
      rw [heq, phase_setMessage, hp] at h
      cases h
    · rw [heq]
      exact ⟨configMap_updateStatus _, .inr ⟨hp, hpaused⟩⟩

theorem redistributing_reconcile (h : (reconcile a w).1.phase = .redistributingKeys) :
    (reconcile a w).1.configMap = w.configMap ∧
      (w.phase = .redistributingKeys ∨
        w.phase = .stoppingWrites ∧ (stopWrites w.kvStore a w).2.paused = getShards a w) := by
  rcases reconcile_cases a w with ⟨f, -, heq⟩ | ⟨-, -, heq⟩ <;> rw [heq] at h ⊢
  · exact ⟨rfl, .inl h⟩
  · exact redistributing_reconcilePhase h

/-- A shard that has paused has said so. -/
theorem pauseWrites_of_mem_paused {x : StatefulSet} (h : x ∈ (stopWrites k a w).2.paused) :
    a.pauseWrites x.serviceName = .ok true := by
  have hmem : x ∈ (askAll (fun x : StatefulSet => a.pauseWrites x.serviceName)
      (getShards a w)).1 := by
    unfold stopWrites at h
    simp only at h
    split at h <;> exact h
  exact (ask_of_mem_askAll hmem :)

theorem pendingKeys_prepareScale : (prepareScale k a w).2.pendingKeys = [] := by
  unfold prepareScale
  simp only
  split_ifs <;> rfl

theorem pendingKeys_redistributeKeys : (redistributeKeys k a w).2.pendingKeys =
    (pollAll (fun x => a.redistributeKeys x.serviceName) (getShards a w)).1 := by
  unfold redistributeKeys
  simp only
  split
  · rfl
  · split_ifs <;> rfl

theorem pendingKeys_reconcilePhase (hp : w.phase ≠ .redistributingKeys) :
    (reconcilePhase a w).2.pendingKeys = [] := by
  unfold reconcilePhase
  split
  · split_ifs
    · rfl
    · unfold scaleDown
      simp only
      split_ifs
      · rfl
      · exact pendingKeys_prepareScale
    · rfl
  · exact pendingKeys_prepareScale
  · unfold stopWrites
    simp only
    split <;> rfl
  · exact absurd ‹_› hp
  · unfold resumeWrites
    simp only
    split <;> rfl
  · rfl
  · rfl

theorem mem_of_mem_getShards {x : StatefulSet} (h : x ∈ getShards a w) : x ∈ w.statefulSets := by
  unfold getShards at h
  split_ifs at h
  · exact h
  · exact absurd h List.not_mem_nil

/-- A count belongs to a shard that exists, in the phase of the counts. -/
theorem mem_pendingKeys_reconcile {x : StatefulSet × Int32}
    (h : x ∈ (reconcile a w).2.pendingKeys) :
    w.phase = .redistributingKeys ∧ x.1 ∈ w.statefulSets := by
  rcases reconcile_cases a w with ⟨f, -, heq⟩ | ⟨-, -, heq⟩ <;> rw [heq] at h
  · exact absurd h List.not_mem_nil
  · by_cases hp : w.phase = .redistributingKeys
    · refine ⟨hp, ?_⟩
      rw [reconcilePhase_of_redistributing hp, pendingKeys_redistributeKeys] at h
      exact mem_of_mem_getShards (ask_of_mem_pollAll h).1
    · rw [pendingKeys_reconcilePhase hp] at h
      exact absurd h List.not_mem_nil

end Phases

/-! ### The shards of a scale operation -/

section Populated

variable {k : KVStore} {a : Answers} {w : Cluster}

/-- A scale operation that moves data has shards to call. -/
def Populated (w : Cluster) : Prop :=
  match w.phase with
  | .preparingScale => w.statefulSets = [] → w.kvStore.status.currentShards = 0
  | .stoppingWrites | .redistributingKeys => w.statefulSets ≠ []
  | _ => True

theorem populated_of_ne (h : w.statefulSets ≠ []) : Populated w := by
  unfold Populated
  split
  · exact fun he => absurd he h
  · exact h
  · exact h
  · trivial

/-- In the phases without a demand nothing is to be shown. -/
theorem populated_of_phase (h₁ : w.phase ≠ .preparingScale) (h₂ : w.phase ≠ .stoppingWrites)
    (h₃ : w.phase ≠ .redistributingKeys) : Populated w := by
  unfold Populated
  split
  · exact absurd ‹_› h₁
  · exact absurd ‹_› h₂
  · exact absurd ‹_› h₃
  · trivial

theorem Populated.scaleUp (hp : w.phase = .normal) : Populated (scaleUp a w) := by
  have hkv := kvStore_scaleUp (a := a) (w := w)
  obtain ⟨m₁, m₂, m₃, -, -, -, hsets⟩ := grown_scaleUp (a := a) (w := w)
  by_cases hne : (Kvctl.scaleUp a w).statefulSets = []
  · -- there was no StatefulSet before, and `CurrentShards` says so
    have hnil : w.statefulSets = [] := (List.append_eq_nil_iff.1 (hsets.symm.trans hne)).1
    cases hstart : a.startStatus with
    | true =>
      rw [hstart] at hkv
      have hstatus : (Kvctl.scaleUp a w).kvStore = w.startScale := hkv
      unfold Populated Cluster.phase
      rw [hstatus]
      intro _
      exact congrArg List.length hnil
    | false =>
      rw [hstart] at hkv
      have hphase : (Kvctl.scaleUp a w).phase = .normal :=
        (congrArg (fun k : KVStore => k.status.phase) hkv).trans hp
      apply populated_of_phase <;> rw [hphase] <;> decide
  · exact populated_of_ne hne

theorem objects_scaleDown : (scaleDown a w).1.objects = w.objects := by
  unfold scaleDown
  simp only
  split_ifs
  · exact objects_startScale
  · rw [objects_prepareScale, objects_startScale]

/-- The status updates of a scale operation that has shards to call. -/
theorem populated_updateStatus (ok : Bool) (h : w.statefulSets ≠ []) :
    Populated (updateStatus ok k w) := by
  refine populated_of_ne ?_
  rw [Cluster.statefulSets_eq (objects_updateStatus ok)]
  exact h

theorem Populated.setMessage (h : Populated w) (ok : Bool) (message : String) :
    Populated (updateStatus ok (w.kvStore.setMessage message) w) := by
  cases ok with
  | false => exact h
  | true => exact h

theorem Populated.prepareScale (h : Populated w) (hp : w.phase = .preparingScale) :
    Populated (prepareScale w.kvStore a w).1 := by
  rcases prepareScale_cases w.kvStore a w with ⟨message, heq⟩ | ⟨-, heq⟩ | ⟨hpos, heq⟩ <;> rw [heq]
  · exact h.setMessage _ _
  · cases a.updateStatus with
    | false => exact h
    | true => exact trivial
  · -- `CurrentShards` is not 0, so there are StatefulSets
    refine populated_updateStatus _ fun hnil => hpos ?_
    unfold Populated at h
    rw [hp] at h
    exact h hnil

theorem Populated.reconcilePhase (h : Populated w) : Populated (reconcilePhase a w).1 := by
  have hphase : w.phase = w.kvStore.status.phase := rfl
  unfold Kvctl.reconcilePhase
  cases hp : w.kvStore.status.phase with
  | normal =>
    simp only
    split_ifs with hup hdown
    · exact .scaleUp (hphase.trans hp)
    · refine populated_of_ne ?_
      rw [Cluster.statefulSets_eq objects_scaleDown]
      exact List.ne_nil_of_length_pos (by omega)
    · exact h
  | preparingScale => exact h.prepareScale (hphase.trans hp)
  | stoppingWrites =>
    unfold Populated at h
    rw [hphase, hp] at h
    rcases stopWrites_cases w.kvStore a w with ⟨message, heq⟩ | ⟨-, heq⟩ <;> simp only [heq] <;>
      exact populated_updateStatus _ h
  | redistributingKeys =>
    unfold Populated at h
    rw [hphase, hp] at h
    rcases redistributeKeys_cases w.kvStore a w with ⟨message, heq⟩ | heq <;> simp only [heq] <;>
      exact populated_updateStatus _ h
  | finalizingScale =>
    rcases phase_finalizeScale (a := a) (w := w) with hs | hs <;>
      apply populated_of_phase <;> simp only [hs, hphase, hp] <;> decide
  | resumingWrites =>
    rcases resumeWrites_cases w.kvStore a w with ⟨message, heq⟩ | ⟨-, heq⟩ <;> simp only [heq]
    · exact h.setMessage _ _
    · cases a.updateStatus with
      | false => exact h
      | true => exact trivial
  | scaleComplete => exact h

theorem Populated.map (h : Populated w) (f : StatefulSet → StatefulSet) :
    Populated { w with statefulSets := w.statefulSets.map f } := by
  unfold Populated at h ⊢
  simpa only [Cluster.phase, List.map_eq_nil_iff, ne_eq] using h

theorem Populated.perm (h : Populated w) {statefulSets : List StatefulSet}
    {services ingresses : List ObjectMeta} (hperm : statefulSets.Perm w.statefulSets) :
    Populated { w with
      statefulSets := statefulSets, services := services, ingresses := ingresses } := by
  have hnil : statefulSets = [] ↔ w.statefulSets = [] :=
    ⟨fun he => (he ▸ hperm).nil_eq.symm, fun he => (he ▸ hperm).eq_nil⟩
  unfold Populated at h ⊢
  simpa only [Cluster.phase, hnil, ne_eq] using h

theorem Populated.reconcile (h : Populated w) : Populated (reconcile a w).1 := by
  rcases reconcile_cases a w with ⟨f, -, heq⟩ | ⟨-, -, heq⟩ <;> rw [heq]
  · exact h.map f
  · exact h.reconcilePhase

end Populated

/-! ### Runs -/

namespace Mounts

variable {R : Type*} {s : Mounts R}

/-- The invariant: once the controller counts keys, the ConfigMap announces new shards. -/
structure Inv (s : Mounts R) : Prop where
  populated : Populated s.cluster
  announced : s.cluster.phase = .redistributingKeys →
    ∃ c, s.cluster.configMap = some c ∧ c.newShards ≠ []
  counts : ∀ shards ∈ s.counts, shards ≠ []

/-- A replica that says that it has paused has read new shards. -/
theorem newShards_of_pauseWrites {r : R} (h : s.pauseWrites r = .ok true) :
    ∃ c, s.readConfig r = some c ∧ c.newShards ≠ [] := by
  unfold pauseWrites at h
  split at h
  · cases h
  · rename_i c hc
    split_ifs at h with hlen
    · cases h
    · exact ⟨c, hc, fun hnil => hlen (congrArg List.length hnil)⟩

/-- A call that the controller has an answer to has been served by the leader. -/
theorem pauseWrites_of_answers {a : Answers} {leader : String → R} {x : String}
    (h : (s.answers leader a).pauseWrites x = .ok true) : s.pauseWrites (leader x) = .ok true := by
  simp only [answers] at h
  cases hx : a.pauseWrites x with
  | error e => rw [hx] at h; cases h
  | ok b => rw [hx] at h; exact h

theorem Inv.announced_reconcile {a : Answers} {leader : String → R} (h : Inv s)
    (hl : Current s (.reconcile a leader))
    (hp : (reconcile (s.answers leader a) s.cluster).1.phase = .redistributingKeys) :
    ∃ c, (reconcile (s.answers leader a) s.cluster).1.configMap = some c ∧ c.newShards ≠ [] := by
  obtain ⟨hconfig, hfrom⟩ := redistributing_reconcile hp
  rw [hconfig]
  rcases hfrom with hw | ⟨hw, hpaused⟩
  · exact h.announced hw
  · -- some shard has paused, on a replica that has mounted the ConfigMap as it is
    have hne : s.cluster.statefulSets ≠ [] := by
      have hpop := h.populated
      unfold Populated at hpop
      rw [hw] at hpop
      exact hpop
    obtain ⟨x, hx⟩ := List.exists_mem_of_ne_nil _ hne
    have hlisted : getShards (s.answers leader a) s.cluster = s.cluster.statefulSets :=
      if_pos (hl.1 hw)
    rw [← hlisted, ← hpaused] at hx
    have hpause := pauseWrites_of_answers (pauseWrites_of_mem_paused hx)
    rw [hpaused, hlisted] at hx
    rw [← hl.2 (.inl hw) x hx]
    exact newShards_of_pauseWrites hpause

/-- What a replica reads that has mounted the ConfigMap while keys are counted. -/
theorem Inv.newShards_of_read (h : Inv s) (hp : s.cluster.phase = .redistributingKeys) {r : R}
    (hr : s.readConfig r = s.cluster.configMap) {c : KVStoreConfig} (hc : s.readConfig r = some c) :
    c.newShards ≠ [] := by
  obtain ⟨c', hc', hne⟩ := h.announced hp
  rw [hr, hc'] at hc
  cases hc
  exact hne

/-- The handler runs on shards that exist, in the phase of the counts. -/
theorem mem_called {a : Answers} {leader : String → R} {x : StatefulSet}
    (h : x ∈ s.called leader a) :
    s.cluster.phase = .redistributingKeys ∧ x ∈ s.cluster.statefulSets := by
  rcases List.mem_append.1 h with h | h
  · obtain ⟨y, hy, rfl⟩ := List.mem_map.1 h
    exact mem_pendingKeys_reconcile hy
  · have hx := Option.mem_toList.1 (List.mem_filter.1 h).1
    unfold givenUp polls at hx
    split_ifs at hx with hpolls
    simp only [Bool.and_eq_true, decide_eq_true_eq] at hpolls
    exact ⟨hpolls.2, mem_of_mem_getShards (List.mem_of_getElem? hx)⟩

variable [DecidableEq R]

theorem Inv.next {l : Label R} {s' : Mounts R} (h : Inv s) (hl : Current s l)
    (hst : machine.next s l = some s') : Inv s' := by
  cases l with
  | reconcile a leader =>
    cases hst
    refine ⟨h.populated.reconcile, h.announced_reconcile hl, fun shards hmem => ?_⟩
    rcases List.mem_append.1 hmem with hmem | hmem
    · exact h.counts shards hmem
    · obtain ⟨c, hc, rfl⟩ := List.mem_map.1 hmem
      obtain ⟨x, hx, hread⟩ := List.mem_filterMap.1 hc
      obtain ⟨hp, hset⟩ := mem_called hx
      exact h.newShards_of_read hp (hl.2 (.inr hp) x hset) hread
  | environment c =>
    obtain ⟨w, hw, rfl⟩ := Option.map_eq_some_iff.1 hst
    rcases Cluster.change_cases hw with ⟨spec, labels, -, -, rfl⟩ | ⟨x, n, -, rfl⟩ |
      ⟨xs, ys, zs, -, hperm, -, -, rfl⟩
    · exact ⟨h.populated, h.announced, h.counts⟩
    · exact ⟨h.populated.map _, h.announced, h.counts⟩
    · exact ⟨h.populated.perm hperm, h.announced, h.counts⟩
  | mount r i =>
    simp only [machine, Mounts.next] at hst
    split_ifs at hst
    cases hst
    exact ⟨h.populated, h.announced, h.counts⟩
  | late r =>
    simp only [machine, Mounts.next] at hst
    split_ifs at hst
    cases hst
    refine ⟨h.populated, h.announced, fun shards hmem => ?_⟩
    rcases List.mem_append.1 hmem with hmem | hmem
    · exact h.counts shards hmem
    · obtain ⟨c, hc, rfl⟩ := List.mem_map.1 hmem
      exact h.newShards_of_read hl.1 hl.2 (Option.mem_toList.1 hc)

/-- **No count builds an empty ring.**  For every run from the creation of a `KVStore` object, with
any failing calls, any leaders and mounts that are late in any way: if the replicas that answer a
pause or a count have mounted the contents of the ConfigMap, the pauses list the shards, and no call
runs after its phase, every call of `RedistributeKeys` builds its ring from some new shards. -/
theorem counts_of_current (name : String) (labels : Labels) (spec : KVStoreSpec) (s : Mounts R)
    (h : machine.ReachedBy Current (created name labels spec) s) :
    ∀ newShards ∈ s.counts, newShards ≠ [] := by
  have hinv : Inv s := by
    refine h.invariant (I := Inv) ⟨trivial, fun hp => ?_, fun _ hmem => ?_⟩
      fun _ _ _ hi hl hst => hi.next hl hst
    · cases hp
    · exact absurd hmem List.not_mem_nil
  exact hinv.counts

/-- A store grows from one shard to two, and both leaders have mounted the ConfigMap in time. -/
theorem counts_of_current_grow :
    ∃ s : Mounts (String × ℕ), machine.ReachedBy Current (created "kv" ∅ ⟨1, 2⟩) s ∧
      s.counts.length = 2 ∧ ∀ newShards ∈ s.counts, newShards ≠ [] := by
  obtain ⟨s, hs, hl⟩ : ∃ s : Mounts (String × ℕ),
      machine.ReachedBy Current (created "kv" ∅ ⟨1, 2⟩) s ∧ s.counts.length = 2 :=
    ⟨_, .head (l := .reconcile .ok (·, 0)) ⟨fun _ => rfl, by decide⟩ rfl <|
      .head (l := .environment (.ready "kv-shard-0-replica" 2)) trivial rfl <|
      .head (l := .reconcile .ok (·, 0)) ⟨fun _ => rfl, by decide⟩ rfl <|
      .head (l := .environment (.edit ⟨2, 2⟩ ∅)) trivial rfl <|
      .head (l := .reconcile .ok (·, 0)) ⟨fun _ => rfl, by decide⟩ rfl <|
      .head (l := .environment (.ready "kv-shard-1-replica" 2)) trivial rfl <|
      .head (l := .reconcile .ok (·, 0)) ⟨fun _ => rfl, by decide⟩ rfl <|
      .head (l := .mount ("kv-shard-0", 0) 2) trivial rfl <|
      .head (l := .mount ("kv-shard-1", 0) 2) trivial rfl <|
      .head (l := .reconcile .ok (·, 0)) ⟨fun _ => rfl, by decide⟩ rfl <|
      .head (l := .reconcile .ok (·, 0)) ⟨fun _ => rfl, by decide⟩ rfl .start, rfl⟩
  exact ⟨s, hs, hl, counts_of_current "kv" ∅ ⟨1, 2⟩ s hs⟩

/-- **A leader whose mount is late counts with an empty ring.**  The store grows from one shard to
two.  The replica that pauses the first shard has mounted the new configuration.  Then the shard
elects another leader, which still has the old one; its process ends at the first count. -/
theorem not_counts :
    ¬ ∀ s : Mounts (String × ℕ), machine.Reached (created "kv" ∅ ⟨1, 2⟩) s →
      ∀ newShards ∈ s.counts, newShards ≠ [] := by
  intro h
  obtain ⟨s, hs, hmem⟩ : ∃ s : Mounts (String × ℕ),
      machine.Reached (created "kv" ∅ ⟨1, 2⟩) s ∧ [] ∈ s.counts :=
    ⟨_, Machine.Reached.of_run
      [.reconcile .ok (·, 0), .environment (.ready "kv-shard-0-replica" 2),
        .reconcile .ok (·, 0), .mount ("kv-shard-0", 1) 1, .environment (.edit ⟨2, 2⟩ ∅),
        .reconcile .ok (·, 0), .environment (.ready "kv-shard-1-replica" 2),
        .reconcile .ok (·, 0), .mount ("kv-shard-0", 0) 2, .mount ("kv-shard-1", 0) 2,
        .reconcile .ok (·, 0),
        .reconcile .ok fun x => (x, if x = "kv-shard-0" then 1 else 0)] rfl,
      List.mem_cons_self⟩
  exact h s hs [] hmem rfl

end Mounts

end Kvctl

end ShardedKvs
