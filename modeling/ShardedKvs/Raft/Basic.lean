import Mathlib.Data.List.Nodup
import ShardedKvs.Text.Decimal

/-!
# Raft configurations

The configuration of a Raft group lists its servers.  The repository changes it through three calls
of `hashicorp/raft` only: `AddVoter`, `RemoveServer` and `DemoteVoter`.  Raft refuses a change after
which two servers would share an ID or an address, so a `Configuration` carries that no two do.

* `Server`, `Configuration` : the servers of a group.
* `Configuration.addVoter`, `removeServer`, `demoteVoter` : the calls on a leader.
* `raftId`, `raftAddress` : the ID and the address of a replica.
-/

namespace ShardedKvs

/-- The ID that a replica has in Raft (`KVStore.Open`). -/
def raftId (replica shard : String) (raftPort : ℕ) : String :=
  replica ++ "." ++ shard ++ ":" ++ toString raftPort

/-- The address that a replica has in Raft. -/
def raftAddress (ip : String) (raftPort : ℕ) : String := ip ++ ":" ++ toString raftPort

namespace Raft

/-- `raft.ServerSuffrage`. -/
inductive Suffrage where
  | voter
  | nonvoter
  | staging
  deriving DecidableEq

/-- `raft.Server`. -/
structure Server where
  suffrage : Suffrage
  id : String
  address : String
  deriving DecidableEq

/-- `raft.Configuration`: no two servers share an ID or an address. -/
structure Configuration where
  servers : List Server
  ids : (servers.map Server.id).Nodup
  addresses : (servers.map Server.address).Nodup

namespace Configuration

/-- The configuration of a group with one voter. -/
def single (id address : String) : Configuration where
  servers := [⟨.voter, id, address⟩]
  ids := List.nodup_singleton id
  addresses := List.nodup_singleton address

/-- `RemoveServer`. -/
def removeServer (c : Configuration) (id : String) : Configuration where
  servers := c.servers.filter fun m => m.id ≠ id
  ids := c.ids.sublist (List.filter_sublist.map _)
  addresses := c.addresses.sublist (List.filter_sublist.map _)

theorem map_map_eq {f : Server → Server} {g : Server → String} {xs : List Server}
    (h : ∀ m, g (f m) = g m) : (xs.map f).map g = xs.map g := by
  rw [List.map_map]
  exact List.map_congr_left fun m _ => h m

/-- `DemoteVoter`. -/
def demoteVoter (c : Configuration) (id : String) : Configuration where
  servers := c.servers.map fun m => if m.id = id then { m with suffrage := .nonvoter } else m
  ids := by
    rw [map_map_eq fun m => by split <;> rfl]
    exact c.ids
  addresses := by
    rw [map_map_eq fun m => by split <;> rfl]
    exact c.addresses

/-- The servers after `AddVoter`: a server with the ID becomes a voter at the address, and a new
server is appended if there is none. -/
def votersWith (c : Configuration) (id address : String) : List Server :=
  if id ∈ c.servers.map Server.id then
    c.servers.map fun m => if m.id = id then ⟨.voter, id, address⟩ else m
  else c.servers ++ [⟨.voter, id, address⟩]

theorem nodup_ids_votersWith (c : Configuration) (id address : String) :
    ((c.votersWith id address).map Server.id).Nodup := by
  unfold votersWith
  split
  · rw [map_map_eq fun m => ?_]
    · exact c.ids
    · split
      · exact Eq.symm ‹_›
      · rfl
  · rename_i hid
    rw [List.map_append, List.nodup_append]
    refine ⟨c.ids, List.nodup_singleton id, fun a ha b hb hab => hid ?_⟩
    have hb' : b = id := List.mem_singleton.1 hb
    rw [← hb', ← hab]
    exact ha

/-- `AddVoter`; `none` when another server has the address. -/
def addVoter (c : Configuration) (id address : String) : Option Configuration :=
  if h : ((c.votersWith id address).map Server.address).Nodup then
    some ⟨c.votersWith id address, c.nodup_ids_votersWith id address, h⟩
  else none

end Configuration

end Raft

end ShardedKvs
