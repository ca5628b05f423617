import Mathlib.Data.Finset.Insert
import ShardedKvs.Kvctl.Quiet
import ShardedKvs.Raft.Basic

/-!
# The replicas that the ConfigMap lists

A replica process builds its table of clients from the replicas that the ConfigMap lists for its
shard, and looks the leader up in it by the ID that Raft reports.  The ConfigMap is written at the
start and at the end of a scale operation.  A change of `spec.replicas` alone goes to the
StatefulSets only.

* `populateReplicaClients` : the table of a process.
* `ListsPods` : every entry of a ConfigMap lists the pods of its shard.
* `Keeps` : no edit leaves the store without a scale operation to come but with another number of
  replicas than the ConfigMap lists.
* `listsPods_of_keeps` : **in a run without failures whose edits all keep the number of replicas, a
  quiet controller leaves a ConfigMap that lists all pods**, and every possible leader of a shard is
  in the table of its processes.
* `not_listsPods` : after a change of `spec.replicas` the ConfigMap goes on listing the old ones.
-/

namespace ShardedKvs

/-- The keys of `replicaClients` after `PopulateReplicaClients` on a process of `shard`; a client
that exists is kept. -/
def populateReplicaClients (clients : Finset String) (c : KVStoreConfig) (shard : String)
    (raftPort : ℕ) : Finset String :=
  let replicas := (c.shards ++ c.newShards).flatMap fun currentShard =>
    if currentShard.name = shard then currentShard.replicas else []
  replicas.foldl (fun clients replica => insert (raftId replica shard raftPort) clients) clients

/-- The name of a pod of the StatefulSet of `shard`. -/
def podName (shard : String) (r : ℕ) : String := shard ++ "-replica-" ++ toString r

/-- Every entry lists exactly the pods of its shard. -/
def ListsPods (replicas : ℕ) (c : KVStoreConfig) : Prop :=
  ∀ x ∈ c.shards ++ c.newShards, x.replicas = (List.range replicas).map (podName x.name)

theorem mem_foldl_insert {α β : Type*} [DecidableEq β] (f : α → β) (xs : List α) (s : Finset β)
    {y : β} : y ∈ xs.foldl (fun s x => insert (f x) s) s ↔ y ∈ s ∨ ∃ x ∈ xs, f x = y := by
  induction xs generalizing s with
  | nil => simp
  | cons x xs ih =>
    rw [List.foldl_cons, ih, Finset.mem_insert]
    simp only [List.mem_cons, exists_eq_or_imp]
    tauto

/-- A process knows every pod that its ConfigMap lists for its shard. -/
theorem mem_populateReplicaClients {c : KVStoreConfig} {replicas raftPort r : ℕ}
    {x : KVStoreShard} (h : ListsPods replicas c) (hx : x ∈ c.shards ++ c.newShards)
    (hr : r < replicas) :
    raftId (podName x.name r) x.name raftPort ∈ populateReplicaClients ∅ c x.name raftPort := by
  refine (mem_foldl_insert _ _ _).2 (.inr ⟨podName x.name r, ?_, rfl⟩)
  refine List.mem_flatMap.2 ⟨x, hx, ?_⟩
  rw [if_pos rfl, h x hx]
  exact List.mem_map_of_mem (List.mem_range.2 hr)

theorem listsPods_kvConfig (name : String) (replicas m n : ℕ) :
    ListsPods replicas (kvConfig name replicas m n) := by
  have hmap : ∀ n, ∀ x ∈ (List.range n).map (shardConfig name replicas),
      x.replicas = (List.range replicas).map (podName x.name) := by
    intro n x hx
    obtain ⟨i, -, rfl⟩ := List.mem_map.1 hx
    rfl
  intro x hx
  have hx' : x ∈ (List.range m).map (shardConfig name replicas) ∨
      x ∈ (List.range n).map (shardConfig name replicas) := by
    unfold kvConfig at hx
    simp only at hx
    split_ifs at hx
    · simpa using hx
    · simpa using hx
    · exact .inl (by simpa using hx)
  rcases hx' with hx' | hx'
  · exact hmap m x hx'
  · exact hmap n x hx'

namespace Kvctl

/-- No call fails.  A status update with a stale copy would, so a pass with a stale copy does not
start a scale operation.  An edit that leaves nothing to scale keeps the number of replicas that the
ConfigMap lists, and none sets the label `group`. -/
def Keeps (s : Racing) : Racing.Label → Prop
  | .finish a => Succeeds a ∧ a.startStatus = true ∧ a.updateStatus = true ∧
      ∀ rd, s.reading = some rd → rd.stale = true → ¬ Starts (rd.view s.cluster)
  | .change (.edit spec labels) => labels.lookup "group" = none ∧
      (spec.shards = s.cluster.statefulSets.length →
        ∀ c, s.cluster.configMap = some c → ListsPods spec.replicas c)
  | _ => True

/-- The ConfigMap of a quiet pass lists the pods of all shards, and every process of a shard knows
every possible leader of it. -/
def PodsListed (w : Cluster) : Prop :=
  ∃ c, w.configMap = some c ∧ ListsPods w.kvStore.spec.replicas c ∧
    ∀ i < w.kvStore.spec.shards, ∀ r < w.kvStore.spec.replicas, ∀ raftPort,
      raftId (podName (shardName w.kvStore.name i) r) (shardName w.kvStore.name i) raftPort ∈
        populateReplicaClients ∅ c (shardName w.kvStore.name i) raftPort

/-! ### A pass does not touch the spec -/

/-- The stored object differs in its status only. -/
def Restated (w w' : Cluster) : Prop := ∃ st, w'.kvStore = { w.kvStore with status := st }

section Restated

variable {k : KVStore} {a : Answers} {w w' w'' : Cluster}

theorem Restated.of_eq (h : w'.kvStore = w.kvStore) : Restated w w' := ⟨w.kvStore.status, h⟩

theorem Restated.trans (h : Restated w w') (h' : Restated w' w'') : Restated w w'' := by
  obtain ⟨st, h⟩ := h
  obtain ⟨st', h'⟩ := h'
  exact ⟨st', by rw [h', h]⟩

theorem restated_updateStatus (ok : Bool) : Restated w (updateStatus ok k w) := by
  unfold updateStatus
  split
  · exact ⟨k.status, rfl⟩
  · exact .of_eq rfl

theorem restated_updateConfigMap : Restated w (updateConfigMap k a w).1 :=
  .of_eq kvStore_updateConfigMap

theorem restated_prepareScale : Restated w (prepareScale k a w).1 := by
  rcases prepareScale_cases k a w with ⟨message, heq⟩ | ⟨-, heq⟩ | ⟨-, heq⟩ <;> rw [heq] <;>
    exact restated_updateStatus _

theorem restated_resumeAfterScale : Restated w (resumeAfterScale k a w) := by
  rcases resumeAfterScale_cases k a w with heq | heq <;> rw [heq]
  · exact .of_eq rfl
  · exact Restated.trans (.of_eq rfl) (restated_updateStatus _)

theorem restated_finalizeScale : Restated w (finalizeScale w.kvStore a w) := by
  have hswept : Restated w (deleteGroups w.kvStore a w).1 := .of_eq swept_deleteGroups.kvStore
  unfold finalizeScale
  simp only
  split_ifs
  · exact restated_resumeAfterScale
  · exact hswept
  · exact hswept.trans restated_resumeAfterScale

theorem restated_reconcilePhase : Restated w (reconcilePhase a w).1 := by
  have hstart : Restated w
      (updateConfigMap w.startScale a (updateStatus a.startStatus w.startScale w)).1 :=
    (restated_updateStatus _).trans restated_updateConfigMap
  unfold reconcilePhase
  split
  · split_ifs
    · refine Restated.trans (restated_updateStatus (k := w.startScale) a.startStatus) (.of_eq ?_)
      exact kvStore_scaleUp
    · unfold scaleDown
      simp only
      split_ifs
      · exact hstart
      · exact hstart.trans restated_prepareScale
    · exact .of_eq rfl
  · exact restated_prepareScale
  · rcases stopWrites_cases w.kvStore a w with ⟨message, heq⟩ | ⟨-, heq⟩ <;> rw [heq] <;>
      exact restated_updateStatus _
  · rcases redistributeKeys_cases w.kvStore a w with ⟨message, heq⟩ | heq <;> rw [heq] <;>
      exact restated_updateStatus _
  · rcases resumeWrites_cases w.kvStore a w with ⟨message, heq⟩ | ⟨-, heq⟩ <;> rw [heq] <;>
      exact restated_updateStatus _
  · exact restated_finalizeScale
  · exact .of_eq rfl

theorem restated_reconcile : Restated w (reconcile a w).1 := by
  rcases reconcile_cases a w with ⟨f, -, heq⟩ | ⟨-, -, heq⟩ <;> rw [heq]
  · exact .of_eq rfl
  · exact restated_reconcilePhase

theorem Reading.Fits.restated_finish {rd : Reading} (h : rd.Fits w) :
    Restated w (rd.finish a w) := by
  rcases h.finish_eq a with ⟨-, heq⟩ | ⟨-, heq⟩ <;> rw [heq]
  · exact .of_eq rfl
  · exact restated_reconcile

end Restated

/-! ### The number of replicas in the ConfigMap -/

/-- The ConfigMap lists the replicas of the spec, unless a scale operation is to come. -/
def ReplicasFit (r : ℕ) (k : KVStore) : Prop :=
  (k.status.phase = .normal ∧ k.spec.shards ≠ k.status.currentShards) ∨ r = k.spec.replicas

/-- The invariant of runs, with a pass under way. -/
structure ReplicaInv (s : Racing) : Prop where
  coherent : s.Coherent
  pos : ∀ rd, s.reading = some rd → 1 ≤ rd.kvStore.spec.shards
  listed : ∃ r, Tidy r s.cluster ∧ ReplicasFit r s.cluster.kvStore ∧
    ∀ rd, s.reading = some rd → ReplicasFit r rd.kvStore

theorem ListsPods.eq {name : String} {r r' n : ℕ} (hn : 1 ≤ n)
    (h : ListsPods r' (kvConfig name r n n)) : r = r' := by
  rw [kvConfig_self _ _ (Nat.one_le_iff_ne_zero.1 hn)] at h
  have hmem : shardConfig name r 0 ∈ (List.range n).map (shardConfig name r) ++ [] := by
    rw [List.append_nil]
    exact List.mem_map_of_mem (List.mem_range.2 hn)
  have hlength := congrArg List.length (h _ hmem)
  simpa [shardConfig] using hlength

theorem ReplicasFit.edit {w : Cluster} {r : ℕ} {spec : KVStoreSpec} {labels : Labels}
    (h : Tidy r w) (hadmitted : admitted w.kvStore spec = true)
    (hkeep : spec.shards = w.statefulSets.length →
      ∀ c, w.configMap = some c → ListsPods spec.replicas c) :
    ReplicasFit r { w.kvStore with spec := spec, labels := labels } := by
  have hp : w.phase = .normal := phase_of_admitted hadmitted
  by_cases hshards : spec.shards = w.kvStore.status.currentShards
  · right
    have hpos : 1 ≤ w.kvStore.status.currentShards := hshards ▸ pos_of_admitted hadmitted
    have hconfig := (configFits_normal hp hpos).1 h.config
    exact ListsPods.eq hpos (hkeep (hshards.trans (h.length_eq hp).symm) _ hconfig)
  · exact .inl ⟨hp, hshards⟩

theorem ReplicasFit.follows {w w' : Cluster} {r r' : ℕ} (h : ReplicasFit r w.kvStore)
    (hfollows : Follows r r' w w') (hw : Restated w w') : ReplicasFit r' w'.kvStore := by
  obtain ⟨st, hst⟩ := hw
  rcases hfollows with rfl | ⟨rfl, heq | hne⟩
  · exact .inr (by rw [hst])
  · rw [heq]; exact h
  · rcases h with ⟨hp, -⟩ | hr
    · exact absurd hp hne
    · exact .inr (by rw [hst]; exact hr)

theorem ReplicaInv.next {s s' : Racing} {l : Racing.Label} (h : ReplicaInv s) (hl : Keeps s l)
    (hst : s.next l = some s') : ReplicaInv s' := by
  have hcoherent := h.coherent.next hst
  obtain ⟨r, hr, hfit, hread⟩ := h.listed
  rcases Racing.next_cases hst with ⟨rfl, rfl⟩ | ⟨a, rd, rfl, hrd, rfl⟩ |
    ⟨spec, labels, rfl, hadmitted, rfl⟩ | ⟨x, n, rfl, rfl⟩ | ⟨xs, ys, zs, rfl, h₁, h₂, h₃, rfl⟩
  · refine ⟨hcoherent, fun rd hrd => ?_, r, hr, hfit, fun rd hrd => ?_⟩ <;> cases hrd
    · exact hr.pos
    · exact hfit
  · obtain ⟨ha, hstart, -, hstale⟩ := hl
    have hfits := h.coherent rd hrd
    obtain ⟨r', hr', hfollows⟩ := hr.finish hfits ha fun hs =>
      ⟨by by_contra hc; exact hstale rd hrd (by simpa using hc) hs, .inl hstart⟩
    exact ⟨hcoherent, fun _ hnone => absurd hnone (by simp), r', hr',
      hfit.follows hfollows hfits.restated_finish, fun _ hnone => absurd hnone (by simp)⟩
  · refine ⟨hcoherent, fun rd hrd => ?_, r, hr.edit hadmitted hl.1, .edit hr hadmitted hl.2,
      fun rd hrd => ?_⟩
    all_goals obtain ⟨rd', hrd', rfl⟩ := Option.map_eq_some_iff.1 hrd
    · exact h.pos rd' hrd'
    · exact hread rd' hrd'
  · refine ⟨hcoherent, h.pos, r, hr.map fun y => ?_, hfit, hread⟩
    split_ifs <;> rfl
  · exact ⟨hcoherent, h.pos, r, hr.reorder h₁ h₂ h₃, hfit, hread⟩

/-- A quiet pass has found the pods of its spec in the ConfigMap. -/
theorem ReplicaInv.podsListed {s : Racing} (h : ReplicaInv s) {rd : Reading}
    (hrd : s.reading = some rd) (hq : Quiet (rd.view s.cluster)) :
    PodsListed (rd.view s.cluster) := by
  obtain ⟨r, hr, -, hread⟩ := h.listed
  have hfits := h.coherent rd hrd
  have hpos := h.pos rd hrd
  have hp : s.cluster.phase = .normal := by
    have := hq.phase
    change rd.kvStore.status.phase = _ at this
    rwa [hfits.status] at this
  have hcur : s.cluster.kvStore.status.currentShards = rd.kvStore.spec.shards :=
    (hr.length_eq hp).symm.trans hq.shards
  have hreplicas : r = rd.kvStore.spec.replicas := by
    rcases hread rd hrd with ⟨-, hne⟩ | heq
    · rw [hfits.status] at hne
      exact absurd hcur.symm hne
    · exact heq
  have hconfig := (configFits_normal hp (hcur ▸ hpos)).1 hr.config
  rw [hcur, hreplicas, ← hfits.name] at hconfig
  refine ⟨_, hconfig, listsPods_kvConfig _ _ _ _, fun i hi j hj raftPort => ?_⟩
  -- the entry of shard `i` in the ConfigMap
  refine mem_populateReplicaClients (x := shardConfig rd.kvStore.name rd.kvStore.spec.replicas i)
    (listsPods_kvConfig _ _ _ _) ?_ hj
  rw [kvConfig_self _ _ (Nat.one_le_iff_ne_zero.1 hpos), List.append_nil]
  exact List.mem_map_of_mem (List.mem_range.2 hi)

/-- **The ConfigMap of a quiet controller lists all pods.**  For every run from the creation of a
`KVStore` object without any failing call: if every edit that leaves nothing to scale keeps the
number of replicas that the ConfigMap lists, and none sets the label `group`, then whenever a
pass finds nothing to do, every entry of the ConfigMap lists exactly the pods of its shard, and the
ID of every pod of a shard is in the table of clients of a process started from it. -/
theorem listsPods_of_keeps (name : String) (labels : Labels) (spec : KVStoreSpec)
    (hlabels : labels.lookup "group" = none) (hpos : 1 ≤ spec.shards) (s : Racing)
    (h : Racing.machine.ReachedBy Keeps (Racing.created name labels spec) s) (rd : Reading)
    (hrd : s.reading = some rd) (hq : Quiet (rd.view s.cluster)) :
    PodsListed (rd.view s.cluster) := by
  refine (h.invariant (I := ReplicaInv) ⟨nofun, nofun, 0, tidy_created name 0 hlabels hpos, ?_,
    nofun⟩ fun s l s' hi hl hst => hi.next hl hst).podsListed hrd hq
  exact .inl ⟨rfl, Nat.one_le_iff_ne_zero.1 hpos⟩

/-- A store with one shard is created. -/
theorem listsPods_of_keeps_create :
    ∃ s rd, Racing.machine.ReachedBy Keeps (Racing.created "kv" ∅ ⟨1, 3⟩) s ∧
      s.reading = some rd ∧ Quiet (rd.view s.cluster) ∧ PodsListed (rd.view s.cluster) := by
  have hfresh : ∀ s : Racing, (∀ rd, s.reading = some rd → rd.stale = false) →
      Keeps s (.finish .ok) :=
    fun s hs => ⟨succeeds_ok, rfl, rfl, fun rd hrd hc => by rw [hs rd hrd] at hc; cases hc⟩
  obtain ⟨s, rd, hs, hrd, hq⟩ : ∃ s rd,
      Racing.machine.ReachedBy Keeps (Racing.created "kv" ∅ ⟨1, 3⟩) s ∧
        s.reading = some rd ∧ Quiet (rd.view s.cluster) :=
    ⟨_, _, .head (l := .get) trivial rfl <|
      .head (l := .finish .ok) (hfresh _ (by rintro rd ⟨⟩; rfl)) rfl <|
      .head (l := .change (.ready "kv-shard-0-replica" 3)) trivial rfl <|
      .head (l := .get) trivial rfl <|
      .head (l := .finish .ok) (hfresh _ (by rintro rd ⟨⟩; rfl)) rfl <|
      .head (l := .get) trivial rfl .start, rfl, rfl, rfl, rfl⟩
  exact ⟨s, rd, hs, hrd, hq, listsPods_of_keeps "kv" ∅ ⟨1, 3⟩ (Finmap.lookup_empty _) le_rfl s hs
    rd hrd hq⟩

/-- **A change of `spec.replicas` does not reach the ConfigMap.**  A store with one replica gets two
of them; the StatefulSet is updated, the controller is quiet, and the ConfigMap lists one pod. -/
theorem not_listsPods :
    ¬ ∀ s, Racing.machine.ReachedBy (fun _ l => ∀ a, l = .finish a →
        Succeeds a ∧ a.startStatus = true ∧ a.updateStatus = true)
      (Racing.created "kv" ∅ ⟨1, 1⟩) s →
      ∀ rd, s.reading = some rd → Quiet (rd.view s.cluster) → PodsListed (rd.view s.cluster) := by
  intro h
  obtain ⟨s, rd, hs, hrd, hq, hconfig, hreplicas⟩ : ∃ s rd,
      Racing.machine.ReachedBy (fun _ l => ∀ a, l = .finish a →
          Succeeds a ∧ a.startStatus = true ∧ a.updateStatus = true)
        (Racing.created "kv" ∅ ⟨1, 1⟩) s ∧ s.reading = some rd ∧ Quiet (rd.view s.cluster) ∧
        s.cluster.configMap = some (kvConfig "kv" 1 1 1) ∧ rd.kvStore.spec.replicas = 2 := by
    refine ⟨_, _, Machine.ReachedBy.of_run [.get, .finish .ok,
      .change (.ready "kv-shard-0-replica" 1), .get, .finish .ok, .change (.edit ⟨1, 2⟩ ∅), .get,
      .finish .ok, .get] ?_ rfl, rfl, ⟨rfl, rfl, rfl⟩, rfl, rfl⟩
    rintro l hl - a rfl
    simp only [List.mem_cons, reduceCtorEq, Racing.Label.finish.injEq, List.not_mem_nil, or_false,
      false_or, or_self] at hl
    rw [hl]
    exact ⟨succeeds_ok, rfl, rfl⟩
  obtain ⟨c, hc, hpods, -⟩ := h s hs rd hrd hq
  have heq : c = kvConfig "kv" 1 1 1 := Option.some.inj (hc.symm.trans hconfig)
  rw [heq] at hpods
  have hbad : 1 = rd.kvStore.spec.replicas := ListsPods.eq le_rfl hpods
  omega

end Kvctl

end ShardedKvs
