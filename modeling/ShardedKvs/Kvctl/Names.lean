import ShardedKvs.Kvctl.Replicas

/-!
# The names of the objects of a store

The controller puts the name of the `KVStore` object, the index of a shard and the number of a
replica into the names of everything that belongs to them.  The rings, the deletions of a scale-down
and the tables of clients all find their objects by these names.  The name of a store is an
arbitrary text, so it may look like the name of a shard itself.

* `StatefulSet.pods` : the pods that Kubernetes runs for a StatefulSet.
* `shardName_inj`, `podName_inj` : the index is the number after the last dash.
* `names_agree` : **no two names are equal, and the ConfigMap lists the pods of the StatefulSets**.
-/

namespace ShardedKvs

theorem shardName_inj {a b : String} {i j : ℕ} :
    shardName a i = shardName b j ↔ a = b ∧ i = j := by
  have hsplit : ∀ (name : String) (s : ℕ),
      shardName name s = name ++ "-shard" ++ "-" ++ toString s := by
    intro name s
    rw [@String.append_assoc name "-shard" "-"]
    rfl
  rw [hsplit, hsplit, numbered_inj, String.append_left_inj]

/-- The name of a pod is that of its StatefulSet, a dash and its ordinal. -/
theorem podName_eq (shard : String) (r : ℕ) :
    podName shard r = shard ++ "-replica" ++ "-" ++ toString r := by
  rw [@String.append_assoc shard "-replica" "-"]
  rfl

theorem podName_inj {a b : String} {i j r s : ℕ} :
    podName (shardName a i) r = podName (shardName b j) s ↔ a = b ∧ i = j ∧ r = s := by
  rw [podName_eq, podName_eq, numbered_inj, String.append_left_inj, shardName_inj, and_assoc]

namespace Kvctl

/-- The pods of a StatefulSet, by their ordinals. -/
def StatefulSet.pods (x : StatefulSet) : List String :=
  (List.range x.replicas).map fun r => x.name ++ "-" ++ toString r

theorem pods_shard (k : KVStore) (i : ℕ) :
    (shard k i).pods = (List.range k.spec.replicas).map (podName (shardName k.name i)) :=
  List.map_congr_left fun r _ => (podName_eq (shardName k.name i) r).symm

/-- **The names of a store never collide, and both sides agree on them.**  Whatever the names of two
stores are, a name of a shard (which is also its Service and its group), of a StatefulSet or of an
Ingress tells the store and the index, and the name of a replica tells its number too.  The replicas
that `UpdateConfigMap` writes for a shard are the pods of the StatefulSet that `SpinUpShards`
creates for it. -/
theorem names_agree (k : KVStore) :
    Function.Injective2 shardName ∧ Function.Injective2 setName ∧
      Function.Injective2 ingressName ∧
      (∀ a b i j r s, podName (shardName a i) r = podName (shardName b j) s →
        a = b ∧ i = j ∧ r = s) ∧
      ∀ i, ∀ x ∈ (kvConfig k.name k.spec.replicas k.status.currentShards
          k.status.targetShards).shards ++ (kvConfig k.name k.spec.replicas
          k.status.currentShards k.status.targetShards).newShards,
        x.name = shardName k.name i → x.replicas = (shard k i).pods := by
  refine ⟨fun a b i j h => shardName_inj.1 h, fun a b i j h => ?_, fun a b i j h => ?_,
    fun a b i j r s h => podName_inj.1 h, fun i x hx hname => ?_⟩
  · exact shardName_inj.1 (String.append_left_inj _ |>.1 h)
  · exact shardName_inj.1 (String.append_left_inj _ |>.1 h)
  · rw [listsPods_kvConfig k.name k.spec.replicas _ _ x hx, hname, pods_shard]

/-- A store that is named like a shard of another one, and the entry of a new shard. -/
theorem names_agree_nested :
    shardName "kv-shard-1" 2 ≠ shardName "kv" 12 ∧
      (shard ⟨"kv", ∅, ⟨2, 3⟩, ⟨.preparingScale, 1, 2, ""⟩⟩ 1).pods =
        ["kv-shard-1-replica-0", "kv-shard-1-replica-1", "kv-shard-1-replica-2"] := by
  obtain ⟨hshard, -, -, -, hpods⟩ :=
    names_agree ⟨"kv", ∅, ⟨2, 3⟩, ⟨.preparingScale, 1, 2, ""⟩⟩
  refine ⟨fun h => absurd (hshard h).2 (by decide), ?_⟩
  exact (hpods 1 (shardConfig "kv" 3 1) (by decide) rfl).symm

end Kvctl

end ShardedKvs
