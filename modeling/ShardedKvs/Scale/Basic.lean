import Mathlib.Data.Fintype.Basic
import ShardedKvs.Shard.Basic

/-!
# Moving keys between shards

While a scale operation is under way the old ring `ch` and the new ring `newCh` disagree on some
keys.  Each poll of the controller (`replicaRpcServer.RedistributeKeys`) counts the keys that are
still to leave a shard and starts the goroutine `RedistributeKeys`, which moves them one by one: it
reads the value with `kvStore.Get`, sends it to the new owner with a redistribution `Put`, and
removes it with `kvStore.Delete`.  Here every shard is its committed store, and each of the three
calls is a step of its own.

* `Scale` : the two rings, as arbitrary functions, and the shard of every replica process.
* `Fleet` : the stores of the shards and the goroutines of the replicas.
* `Fleet.read`, `Fleet.send`, `Fleet.purge` : the steps of a goroutine.
* `Fleet.pendingKeys`, `Fleet.answer` : the count, and the `int32` that the controller gets.
* `Fleet.Moves` : everything that a step of a goroutine can do.
-/

namespace ShardedKvs

/-- The rings before and after a scale operation, and the flag `-shard` of every replica process. -/
structure Scale (Shard Replica : Type*) where
  old : String → Shard
  new : String → Shard
  home : Replica → Shard

/-- The test of `RedistributeKeys` in the process of `r` with the ring `ch`: it has to move the key
away. -/
def Scale.mustMove {Shard Replica : Type*} [DecidableEq Shard] (S : Scale Shard Replica)
    (ch : String → Shard) (r : Replica) (k : String) : Bool :=
  ch k ≠ S.new k ∧ ch k = S.home r

/-- Stores in which every key is at its owner under the old ring. -/
structure Placement {Shard Replica : Type*} (S : Scale Shard Replica) where
  store : Shard → Contents
  placed : ∀ s k, (store s).lookup k ≠ none → s = S.old k

/-- The goroutine `RedistributeKeys` of a replica; `off` is `redistributingKeys == false`. -/
inductive Loop where
  | off
  /-- Between two keys. -/
  | idle
  /-- After `kvStore.Get`, before the `Put` to the new owner. -/
  | got (key value : String)
  /-- After the `Put`, before `kvStore.Delete`. -/
  | sent (key : String)
  deriving DecidableEq

/-- The key that the goroutine is moving. -/
def Loop.key : Loop → Option String
  | .got k _ => some k
  | .sent k => some k
  | _ => none

/-- The shards and the replica processes. -/
structure Fleet (Shard Replica : Type*) where
  /-- The committed store of each shard. -/
  store : Shard → Contents
  /-- The ring `ch` that each process routes with. -/
  ch : Replica → String → Shard
  loop : Replica → Loop

/-- The steps of the goroutines. -/
inductive LoopLabel (Replica : Type*) where
  /-- `kvStore.Get` of the next key. -/
  | read (r : Replica) (key : String)
  /-- The redistribution `Put`. -/
  | send (r : Replica) (out : Outcome)
  /-- `kvStore.Delete`. -/
  | purge (r : Replica) (out : Outcome)
  /-- The goroutine ends, or its process does. -/
  | stop (r : Replica)

namespace Placement

variable {Shard Replica : Type*} {S : Scale Shard Replica}

/-- The value of a key before the scale operation. -/
def content (P : Placement S) (k : String) : Option String := (P.store (S.old k)).lookup k

end Placement

namespace Fleet

variable {Shard Replica : Type*} [DecidableEq Shard] [DecidableEq Replica]

/-- The value of a key at a shard. -/
def get (f : Fleet Shard Replica) (s : Shard) (k : String) : Option String := (f.store s).lookup k

/-- An entry is committed at a shard. -/
def write (f : Fleet Shard Replica) (s : Shard) (e : KVFSMLogEntry) : Fleet Shard Replica :=
  { f with store := Function.update f.store s (e.applyTo (f.store s)) }

/-- An entry is committed at a shard, if the call takes effect. -/
def commit (f : Fleet Shard Replica) (out : Outcome) (s : Shard) (e : KVFSMLogEntry) :
    Fleet Shard Replica :=
  if out.applied then f.write s e else f

/-- The goroutine of `r` goes on. -/
def goto (f : Fleet Shard Replica) (r : Replica) (l : Loop) : Fleet Shard Replica :=
  { f with loop := Function.update f.loop r l }

variable (S : Scale Shard Replica)

/-- The test of `RedistributeKeys`: `r` has to move the key away. -/
def mustMove (f : Fleet Shard Replica) (r : Replica) (k : String) : Bool :=
  S.mustMove (f.ch r) r k

/-- The count of `replicaRpcServer.RedistributeKeys`. -/
def pendingKeys (f : Fleet Shard Replica) (r : Replica) : ℕ :=
  ((f.store (S.home r)).keys.filter fun k => f.mustMove S r k).card

/-- `PendingKeys: int32(pendingKeys)`, as the controller reads it. -/
def answer (f : Fleet Shard Replica) (r : Replica) : ℤ := (Int32.ofNat (f.pendingKeys S r)).toInt

omit [DecidableEq Shard] in
/-- `go RedistributeKeys()`: at most one goroutine per process. -/
def start (f : Fleet Shard Replica) (r : Replica) : Fleet Shard Replica :=
  if f.loop r = .off then f.goto r .idle else f

/-- `kvStore.Get` of the next key; a key that is gone is passed over. -/
def read (f : Fleet Shard Replica) (r : Replica) (k : String) : Option (Fleet Shard Replica) :=
  if f.loop r = .idle ∧ f.mustMove S r k = true then
    match f.get (S.home r) k with
    | some v => some (f.goto r (.got k v))
    | none => some f
  else none

/-- The `Put` to the new owner, with `IsRedistribution: true`; no handler rejects it. -/
def send (f : Fleet Shard Replica) (r : Replica) (out : Outcome) : Option (Fleet Shard Replica) :=
  match f.loop r with
  | .got k v =>
    -- after an error the loop goes on with the next key, whether or not the `Put` took effect
    some ((f.commit out (S.new k) (.set k v)).goto r (if out = .ok then .sent k else .idle))
  | _ => none

/-- `kvStore.Delete` after a `Put` that succeeded. -/
def purge (f : Fleet Shard Replica) (r : Replica) (out : Outcome) : Option (Fleet Shard Replica) :=
  match f.loop r with
  | .sent k => some ((f.commit out (S.home r) (.delete k)).goto r .idle)
  | _ => none

/-- One step of a goroutine. -/
def step (f : Fleet Shard Replica) : LoopLabel Replica → Option (Fleet Shard Replica)
  | .read r k => f.read S r k
  | .send r out => f.send S r out
  | .purge r out => f.purge S r out
  | .stop r => some (f.goto r .off)

/-! ### Lookups after a write -/

variable {S} {f f' : Fleet Shard Replica}

omit [DecidableEq Replica] in
theorem get_write (s s' : Shard) (e : KVFSMLogEntry) (k : String) :
    (f.write s e).get s' k = if s' = s then (e.pickKey k).getD (f.get s k) else f.get s' k := by
  unfold get write
  by_cases hs : s' = s
  · subst hs; simp [KVFSMLogEntry.lookup_applyTo]
  · simp [hs]

omit [DecidableEq Replica] in
theorem get_write_set (s s' : Shard) (k k' v : String) :
    (f.write s (.set k v)).get s' k' = if s' = s ∧ k' = k then some v else f.get s' k' := by
  rw [get_write]
  by_cases hs : s' = s <;> by_cases hk : k' = k <;>
    simp [hs, hk, KVFSMLogEntry.pickKey, KVFSMLogEntry.set, KVFSMLogEntry.getKey,
      KVFSMLogEntry.getValue]

omit [DecidableEq Replica] in
theorem get_write_delete (s s' : Shard) (k k' : String) :
    (f.write s (.delete k)).get s' k' = if s' = s ∧ k' = k then none else f.get s' k' := by
  rw [get_write]
  by_cases hs : s' = s <;> by_cases hk : k' = k <;>
    simp [hs, hk, KVFSMLogEntry.pickKey, KVFSMLogEntry.delete, KVFSMLogEntry.getKey, SET, DELETE]

omit [DecidableEq Replica] in
theorem get_write_entry (s s' : Shard) (req : Request) (k : String) :
    (f.write s req.entry).get s' k = if s' = s ∧ k = req.key then req.result else f.get s' k := by
  cases req with
  | put k' v isRedistribution => exact get_write_set s s' k' k v
  | delete k' => exact get_write_delete s s' k' k

omit [DecidableEq Shard] in
@[simp] theorem get_goto (r : Replica) (l : Loop) (s : Shard) (k : String) :
    (f.goto r l).get s k = f.get s k := rfl

omit [DecidableEq Shard] in
theorem loop_goto (r r' : Replica) (l : Loop) :
    (f.goto r l).loop r' = if r' = r then l else f.loop r' := by
  unfold goto
  by_cases hr : r' = r
  · subst hr; simp
  · simp [hr]

/-! ### The count -/

omit [DecidableEq Replica] in
theorem mustMove_iff (r : Replica) (k : String) :
    f.mustMove S r k = true ↔ f.ch r k ≠ S.new k ∧ f.ch r k = S.home r := by
  simp [mustMove, Scale.mustMove]

omit [DecidableEq Replica] in
theorem pendingKeys_eq_zero_iff (r : Replica) :
    f.pendingKeys S r = 0 ↔ ∀ k, f.mustMove S r k = true → f.get (S.home r) k = none := by
  unfold pendingKeys get
  -- both sides say that no key of the store passes the test
  rw [Finset.card_eq_zero, Finset.filter_eq_empty_iff]
  refine forall_congr' fun k => ?_
  rw [Finmap.mem_keys, ← Finmap.lookup_isSome, Finmap.lookup_eq_none, ← Finmap.lookup_isSome]
  tauto

/-- An answer of 0 means a count of 0, unless the count wraps around. -/
theorem eq_zero_of_toInt {n : ℕ} (h : (Int32.ofNat n).toInt = 0)
    (hfits : ¬ (0 < n ∧ 2 ^ 32 ∣ n)) : n = 0 := by
  rw [Int32.toInt_ofNat', ← Int.dvd_iff_bmod_eq_zero] at h
  have hdvd : 2 ^ 32 ∣ n := by exact_mod_cast h
  by_contra hne
  exact hfits ⟨Nat.pos_of_ne_zero hne, hdvd⟩

/-! ### What a step can do -/

variable (S) in
/-- Everything that a step of a goroutine can do. -/
inductive Moves (f : Fleet Shard Replica) : Fleet Shard Replica → Prop
  /-- The key is gone. -/
  | pass : Moves f f
  /-- The goroutine starts, ends, or gives up on a key. -/
  | rest {r : Replica} {l : Loop} : l = .off ∨ l = .idle → Moves f (f.goto r l)
  | read {r : Replica} {k v : String} : f.mustMove S r k = true → f.get (S.home r) k = some v →
      Moves f (f.goto r (.got k v))
  /-- The `Put` takes effect; the goroutine may see an error. -/
  | send {r : Replica} {k v : String} {l : Loop} : f.loop r = .got k v → l = .sent k ∨ l = .idle →
      Moves f ((f.write (S.new k) (.set k v)).goto r l)
  | purge {r : Replica} {k : String} : f.loop r = .sent k →
      Moves f ((f.write (S.home r) (.delete k)).goto r .idle)

theorem moves_of_step {l : LoopLabel Replica} (h : f.step S l = some f') : f.Moves S f' := by
  cases l with
  | read r k =>
    simp only [step, read] at h
    split_ifs at h with hr
    split at h <;> cases h
    · exact .read hr.2 ‹_›
    · exact .pass
  | send r out =>
    simp only [step, send] at h
    split at h <;> cases h
    rename_i k v hloop
    cases out with
    | ok => exact .send hloop (.inl rfl)
    | failed => exact .rest (.inr rfl)
    | lost => exact .send hloop (.inr rfl)
  | purge r out =>
    simp only [step, purge] at h
    split at h <;> cases h
    rename_i k hloop
    cases out with
    | ok => exact .purge hloop
    | failed => exact .rest (.inr rfl)
    | lost => exact .purge hloop
  | stop r => cases h; exact .rest (.inl rfl)

theorem moves_start (r : Replica) : f.Moves S (f.start r) := by
  unfold start
  split
  · exact .rest (.inr rfl)
  · exact .pass

theorem Moves.ch_eq (h : f.Moves S f') : f'.ch = f.ch := by
  cases h <;> rfl

end Fleet

end ShardedKvs
