import Mathlib.Data.List.Basic
import ShardedKvs.Text.Decimal

/-!
# The configuration of a store

The controller persists the phase of a scale operation in the status of the `KVStore` object, and
tells the shards about it through a ConfigMap that is mounted into every replica process.

* `Phase` : the phases.
* `KVStoreConfig` : the contents of the ConfigMap.
* `kvConfig` : what `UpdateConfigMap` writes for given numbers of shards.
* `KVStoreConfig.reload` : what `ReloadConfig` makes of a configuration.

`yaml.Marshal` and `yaml.Unmarshal` are represented by the value they carry.
-/

namespace ShardedKvs

/-- The phases of a scale operation (`RedistributionPhase`); `normal` is the empty string. -/
inductive Phase where
  | normal
  | preparingScale
  | stoppingWrites
  | redistributingKeys
  | finalizingScale
  | resumingWrites
  | scaleComplete
  deriving DecidableEq

/-- One shard in the ConfigMap. -/
structure KVStoreShard where
  name : String
  replicas : List String
  deriving DecidableEq

/-- The contents of the ConfigMap. -/
structure KVStoreConfig where
  shards : List KVStoreShard
  newShards : List KVStoreShard
  deriving DecidableEq

/-- `fmt.Sprintf("%s-shard-%d", name, s)`. -/
def shardName (name : String) (s : ℕ) : String := name ++ "-shard-" ++ toString s

/-- The entry of shard `s`. -/
def shardConfig (name : String) (replicas s : ℕ) : KVStoreShard where
  name := shardName name s
  replicas := (List.range replicas).map fun r => shardName name s ++ "-replica-" ++ toString r

/-- The configuration that `UpdateConfigMap` writes. -/
def kvConfig (name : String) (replicas currentShards targetShards : ℕ) : KVStoreConfig :=
  let shards := (List.range currentShards).map (shardConfig name replicas)
  if currentShards ≠ targetShards ∨ currentShards = 0 then
    let newShards := (List.range targetShards).map (shardConfig name replicas)
    if currentShards = 0 then ⟨shards ++ newShards, []⟩ else ⟨shards, newShards⟩
  else ⟨shards, []⟩

/-- The members of the ring that a process builds from the shards of its configuration. -/
def KVStoreConfig.members (c : KVStoreConfig) : List String := c.shards.map KVStoreShard.name

/-- What `ReloadConfig` makes of the configuration that it has read: it returns `false` while there
are new shards, and otherwise assigns the ring over the given members. -/
def KVStoreConfig.reload (c : KVStoreConfig) : Option (List String) :=
  if c.newShards ≠ [] then none else some c.members

theorem shardName_injective (name : String) : Function.Injective (shardName name) := by
  intro m n h
  have h' := congrArg (· ++ "") h
  exact indexed_injective (name ++ "-shard-") "" h'

theorem map_name_shardConfig (name : String) (replicas n : ℕ) :
    ((List.range n).map (shardConfig name replicas)).map KVStoreShard.name =
      (List.range n).map (shardName name) := by
  rw [List.map_map]; rfl

/-- The first configuration of a store has all its shards, and no new ones. -/
theorem kvConfig_zero (name : String) (replicas targetShards : ℕ) :
    kvConfig name replicas 0 targetShards =
      ⟨(List.range targetShards).map (shardConfig name replicas), []⟩ := by
  simp [kvConfig]

/-- While a store is scaled, the configuration has its shards and the new ones. -/
theorem kvConfig_of_ne (name : String) (replicas : ℕ) {currentShards targetShards : ℕ}
    (h : currentShards ≠ targetShards) (hpos : currentShards ≠ 0) :
    kvConfig name replicas currentShards targetShards =
      ⟨(List.range currentShards).map (shardConfig name replicas),
        (List.range targetShards).map (shardConfig name replicas)⟩ := by
  simp [kvConfig, h, hpos]

theorem kvConfig_self (name : String) (replicas : ℕ) {n : ℕ} (hpos : n ≠ 0) :
    kvConfig name replicas n n = ⟨(List.range n).map (shardConfig name replicas), []⟩ := by
  simp [kvConfig, hpos]

end ShardedKvs
