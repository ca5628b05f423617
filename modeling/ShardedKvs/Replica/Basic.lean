import Mathlib.Logic.Function.Basic
import ShardedKvs.KvStore.Shared

/-!
# Replicated shards

Every shard has one committed log, and every replica process applies the log of its shard at its own
pace: any replica may lag behind by any distance, and Raft may also restore a snapshot on it.  What
a replica answers is read from its own `KVStore`.

* `Replicas` : the committed logs and the replica processes.
* `Replicas.Current` : the process has applied the whole log of its shard, and its `KVStore` still
  points to the map of its state machine.
* `Replicas.Replays` : a process on which no snapshot has been restored reads the store of a prefix
  of the log; it holds in every run.
* `Replicas.Replays.get_current` : **a current replica answers from the committed log**.
-/

namespace ShardedKvs

/-- The shards with their committed logs, and the replica processes. -/
structure Replicas (Shard Replica : Type*) where
  /-- The committed log of each shard. -/
  log : Shard → List KVFSMLogEntry
  node : Replica → Node
  /-- The number of committed entries that each replica has applied. -/
  applied : Replica → ℕ

namespace Replicas

variable {Shard Replica : Type*}

/-- Shards whose replicas have just been opened. -/
def opened (Shard Replica : Type*) : Replicas Shard Replica where
  log _ := []
  node _ := Node.opened
  applied _ := 0

/-- The store that the committed log of a shard gives. -/
def committed (d : Replicas Shard Replica) (x : Shard) : Contents := storeOf (d.log x)

/-- The pointers of the two structs of a process are equal: no snapshot has been restored. -/
def Unrestored (d : Replicas Shard Replica) (r : Replica) : Prop :=
  (d.node r).kvStore.store = (d.node r).fsm.store

instance (d : Replicas Shard Replica) (r : Replica) : Decidable (d.Unrestored r) :=
  inferInstanceAs (Decidable (_ = _))

section Steps

variable [DecidableEq Shard] [DecidableEq Replica] (home : Replica → Shard)

/-- An entry is committed at a shard. -/
def append (d : Replicas Shard Replica) (x : Shard) (e : KVFSMLogEntry) : Replicas Shard Replica :=
  { d with log := Function.update d.log x (d.log x ++ [e]) }

/-- The process of `r` is now `n`, which has applied `index` entries. -/
def setNode (d : Replicas Shard Replica) (r : Replica) (n : Node) (index : ℕ) :
    Replicas Shard Replica :=
  { d with
    node := Function.update d.node r n
    applied := Function.update d.applied r index }

/-- The state machine of `r` applies the next committed entry, if there is one. -/
def apply (d : Replicas Shard Replica) (r : Replica) : Option (Replicas Shard Replica) :=
  match (d.log (home r))[d.applied r]? with
  | none => some d
  | some e => ((d.node r).apply e).map fun n => d.setNode r n (d.applied r + 1)

/-- The state machine of `r` applies every outstanding entry, as on a leader that serves. -/
def catchUp (d : Replicas Shard Replica) (r : Replica) : Option (Replicas Shard Replica) :=
  ((d.node r).applyAll ((d.log (home r)).drop (d.applied r))).map fun n =>
    d.setNode r n (d.log (home r)).length

/-- Raft restores a snapshot of the first `index` entries on `r`. -/
def restore (d : Replicas Shard Replica) (r : Replica) (snap : KVFSMSnapshot) (index : ℕ) :
    Replicas Shard Replica :=
  d.setNode r ((d.node r).restore snap) index

end Steps

/-- The replica has applied the whole committed log of its shard, and no snapshot has been restored
on it. -/
structure Current (home : Replica → Shard) (d : Replicas Shard Replica) (r : Replica) : Prop where
  applied : d.applied r = (d.log (home r)).length
  unrestored : d.Unrestored r

/-- A replica on which no snapshot has been restored reads the store of the entries that it has
applied. -/
structure Reads (home : Replica → Shard) (d : Replicas Shard Replica) (r : Replica) : Prop where
  shared : (d.node r).Shared
  le : d.applied r ≤ (d.log (home r)).length
  store : (d.node r).fsmStore = storeOf ((d.log (home r)).take (d.applied r))

/-- Every replica on which no snapshot has been restored reads the entries that it has applied. -/
def Replays (home : Replica → Shard) (d : Replicas Shard Replica) : Prop :=
  ∀ r, d.Unrestored r → d.Reads home r

/-! ### Runs keep `Replays` -/

section

variable [DecidableEq Shard] [DecidableEq Replica] {home : Replica → Shard}
  {d d' : Replicas Shard Replica}

omit [DecidableEq Shard] [DecidableEq Replica] in
theorem replays_opened (home : Replica → Shard) : (opened Shard Replica).Replays home :=
  fun _ _ => ⟨Node.shared_opened, le_rfl, rfl⟩

omit [DecidableEq Replica] in
theorem log_append (x y : Shard) (e : KVFSMLogEntry) :
    (d.append x e).log y = if y = x then d.log x ++ [e] else d.log y := by
  by_cases hy : y = x
  · subst hy; simp [append]
  · simp [append, hy]

omit [DecidableEq Replica] in
theorem lookup_committed_append (x y : Shard) (e : KVFSMLogEntry) (k : String) :
    ((d.append x e).committed y).lookup k =
      if y = x then (e.pickKey k).getD ((d.committed y).lookup k)
      else (d.committed y).lookup k := by
  unfold committed
  rw [log_append]
  split_ifs with hy
  · subst hy
    rw [lookup_storeOf, lookup_storeOf, latest_concat]
  · rfl

omit [DecidableEq Replica] in
theorem Replays.append (h : d.Replays home) (x : Shard) (e : KVFSMLogEntry) :
    (d.append x e).Replays home := by
  intro r hr
  obtain ⟨hshared, hle, hstore⟩ := h r hr
  have hlog := log_append (d := d) x (home r) e
  refine ⟨hshared, ?_, ?_⟩
  · rw [hlog]
    split
    · rename_i hx
      rw [← hx, List.length_append]
      exact hle.trans (Nat.le_add_right _ _)
    · exact hle
  · rw [hlog]
    split
    · rename_i hx
      rw [← hx]
      show (d.node r).fsmStore = storeOf (List.take (d.applied r) _)
      rw [List.take_append_of_le_length hle]
      exact hstore
    · exact hstore

omit [DecidableEq Shard] in
theorem unrestored_setNode {r : Replica} {n : Node} {index : ℕ} (r' : Replica) :
    (d.setNode r n index).Unrestored r' ↔
      if r' = r then n.kvStore.store = n.fsm.store else d.Unrestored r' := by
  by_cases hr : r' = r
  · subst hr
    simp only [Unrestored, setNode, Function.update_self, if_true]
  · simp only [Unrestored, setNode, Function.update_of_ne hr, if_neg hr]

omit [DecidableEq Shard] in
/-- Only the process that is replaced has to be looked at. -/
theorem Replays.setNode (h : d.Replays home) {r : Replica} {n : Node} {index : ℕ}
    (hn : n.kvStore.store = n.fsm.store → n.Shared ∧ index ≤ (d.log (home r)).length ∧
      n.fsmStore = storeOf ((d.log (home r)).take index)) :
    (d.setNode r n index).Replays home := by
  intro r' hr'
  rw [unrestored_setNode] at hr'
  by_cases hrr : r' = r
  · subst hrr
    rw [if_pos rfl] at hr'
    obtain ⟨hshared, hle, hstore⟩ := hn hr'
    refine ⟨?_, ?_, ?_⟩ <;> simp only [Replicas.setNode, Function.update_self]
    · exact hshared
    · exact hle
    · exact hstore
  · rw [if_neg hrr] at hr'
    obtain ⟨hshared, hle, hstore⟩ := h r' hr'
    refine ⟨?_, ?_, ?_⟩ <;> simp only [Replicas.setNode, Function.update_of_ne hrr]
    · exact hshared
    · exact hle
    · exact hstore

omit [DecidableEq Shard] in
theorem Replays.apply (h : d.Replays home) {r : Replica} (hst : d.apply home r = some d') :
    d'.Replays home := by
  unfold Replicas.apply at hst
  split at hst
  · cases hst; exact h
  · rename_i e he
    obtain ⟨n, hn, rfl⟩ := Option.map_eq_some_iff.1 hst
    have ha := Node.applied_of_apply hn
    refine h.setNode fun hptr => ?_
    have hptr' : d.Unrestored r := by rwa [ha.kvStore, ha.fsm_store] at hptr
    obtain ⟨⟨-, p, hp⟩, -, hstore⟩ := h r hptr'
    refine ⟨⟨hptr, p, ?_⟩, ?_, ?_⟩
    · rw [ha.vars, ha.fsm_store, hp]
    · exact (List.getElem?_eq_some_iff.1 he).1
    · rw [ha.fsmStore, hstore, List.take_add_one, he]
      simp [storeOf]

omit [DecidableEq Shard] in
theorem log_apply {r : Replica} (hst : d.apply home r = some d') : d'.log = d.log := by
  unfold Replicas.apply at hst
  split at hst
  · cases hst; rfl
  · obtain ⟨n, -, rfl⟩ := Option.map_eq_some_iff.1 hst
    rfl

omit [DecidableEq Shard] in
theorem unrestored_apply {r : Replica} (hst : d.apply home r = some d') (r' : Replica) :
    d'.Unrestored r' ↔ d.Unrestored r' := by
  unfold Replicas.apply at hst
  split at hst
  · cases hst; exact Iff.rfl
  · obtain ⟨n, hn, rfl⟩ := Option.map_eq_some_iff.1 hst
    have ha := Node.applied_of_apply hn
    rw [unrestored_setNode]
    split
    · rename_i hr
      rw [hr, ha.kvStore, ha.fsm_store]
      exact Iff.rfl
    · exact Iff.rfl

omit [DecidableEq Shard] in
theorem applied_apply {r r' : Replica} (hst : d.apply home r = some d') (hr : r' ≠ r) :
    d'.applied r' = d.applied r' := by
  unfold Replicas.apply at hst
  split at hst
  · cases hst; rfl
  · obtain ⟨n, -, rfl⟩ := Option.map_eq_some_iff.1 hst
    exact Function.update_of_ne hr ..

omit [DecidableEq Shard] in
theorem applied_le_apply {r : Replica} (hst : d.apply home r = some d') :
    d.applied r ≤ d'.applied r := by
  unfold Replicas.apply at hst
  split at hst
  · cases hst; exact le_rfl
  · obtain ⟨n, -, rfl⟩ := Option.map_eq_some_iff.1 hst
    simp [setNode]

omit [DecidableEq Shard] in
theorem applied_catchUp {r r' : Replica} (hst : d.catchUp home r = some d') (hr : r' ≠ r) :
    d'.applied r' = d.applied r' := by
  obtain ⟨n, -, rfl⟩ := Option.map_eq_some_iff.1 hst
  exact Function.update_of_ne hr ..

omit [DecidableEq Shard] in
/-- `Apply` does not panic on a process that has not been restored. -/
theorem Replays.exists_apply (h : d.Replays home) {r : Replica} (hr : d.Unrestored r) :
    ∃ d', d.apply home r = some d' := by
  obtain ⟨⟨-, p, hp⟩, -, -⟩ := h r hr
  unfold Replicas.apply
  split
  · exact ⟨d, rfl⟩
  · rename_i e _
    obtain ⟨n, hn⟩ := Node.exists_apply hp e
    exact ⟨_, by rw [hn]; rfl⟩

omit [DecidableEq Shard] in
theorem Current.apply {r : Replica} (h : d.Current home r) : d.apply home r = some d := by
  have hnone : (d.log (home r))[d.applied r]? = none :=
    List.getElem?_eq_none (by rw [h.applied])
  simp only [Replicas.apply, hnone]

omit [DecidableEq Shard] in
/-- What the other replicas apply does not make a replica lag. -/
theorem Current.of_apply {r r' : Replica} (h : d.Current home r') (hst : d.apply home r = some d') :
    d'.Current home r' := by
  by_cases hr : r' = r
  · subst hr
    obtain rfl := Option.some.inj (h.apply.symm.trans hst)
    exact h
  · exact ⟨by rw [applied_apply hst hr, log_apply hst, h.applied],
      (unrestored_apply hst r').2 h.unrestored⟩

/-- A current replica applies the entry that has just been committed, and is current again. -/
theorem Replays.exists_apply_append (h : d.Replays home) {r : Replica} (hr : d.Current home r)
    (e : KVFSMLogEntry) :
    ∃ d', (d.append (home r) e).apply home r = some d' ∧
      d'.log (home r) = d.log (home r) ++ [e] ∧ d'.Replays home ∧ d'.Current home r := by
  have happend := h.append (home r) e
  obtain ⟨d', hd'⟩ := happend.exists_apply (r := r) hr.unrestored
  have hlog : (d.append (home r) e).log (home r) = d.log (home r) ++ [e] := by
    rw [log_append, if_pos rfl]
  refine ⟨d', hd', ?_, happend.apply hd', ⟨?_, ?_⟩⟩
  · rw [log_apply hd', hlog]
  · rw [log_apply hd', hlog, List.length_append, ← hr.applied]
    unfold Replicas.apply at hd'
    rw [hlog, show (d.append (home r) e).applied r = (d.log (home r)).length from hr.applied,
      List.getElem?_concat_length] at hd'
    obtain ⟨n, -, rfl⟩ := Option.map_eq_some_iff.1 hd'
    rw [hr.applied]
    exact Function.update_self ..
  · exact (unrestored_apply hd' r).2 hr.unrestored

omit [DecidableEq Shard] in
/-- Catching up never panics, and makes the replica current. -/
theorem Replays.exists_catchUp (h : d.Replays home) {r : Replica} (hr : d.Unrestored r) :
    ∃ d', d.catchUp home r = some d' ∧ d'.log = d.log ∧ d'.Replays home ∧ d'.Current home r ∧
      ∀ r', d.Unrestored r' → d'.Unrestored r' := by
  obtain ⟨⟨hptr, p, hp⟩, hle, hstore⟩ := h r hr
  obtain ⟨n, hn, hvars, hkv, hfsm, hstore', -⟩ :=
    Node.exists_applyAll hp ((d.log (home r)).drop (d.applied r))
  have hcur : n.kvStore.store = n.fsm.store := by rw [hkv, hfsm]; exact hr
  refine ⟨d.setNode r n (d.log (home r)).length, ?_, rfl, ?_, ⟨?_, ?_⟩, fun r' hr' => ?_⟩
  · rw [catchUp, hn]; rfl
  · refine h.setNode fun _ => ⟨⟨hcur, p, ?_⟩, le_rfl, ?_⟩
    · rw [hvars, hfsm, hp]
    · rw [hstore', hstore, List.take_length, storeOf, storeOf, ← List.foldl_append,
        List.take_append_drop]
  · exact Function.update_self ..
  · rw [unrestored_setNode, if_pos rfl]
    exact hcur
  · rw [unrestored_setNode]
    split
    · exact hcur
    · exact hr'

omit [DecidableEq Shard] in
/-- A restored process is not claimed to read anything. -/
theorem Replays.restore (h : d.Replays home) (r : Replica) (snap : KVFSMSnapshot) (index : ℕ) :
    (d.restore r snap index).Replays home :=
  -- the variable of the state machine is a new one
  h.setNode fun hptr => absurd hptr (d.node r).kvStore_lt.ne

/-! ### What a replica answers -/

omit [DecidableEq Shard] [DecidableEq Replica] in
theorem Reads.get {r : Replica} (h : d.Reads home r) (k : String) :
    (d.node r).get k = match (storeOf ((d.log (home r)).take (d.applied r))).lookup k with
      | some v => .ok v
      | none => .error {} := by
  rw [← h.store, Node.get_eq, h.shared.1]
  rfl

omit [DecidableEq Shard] [DecidableEq Replica] in
/-- **A current replica answers from the committed log.** -/
theorem Replays.get_current (h : d.Replays home) {r : Replica} (hr : d.Current home r)
    (k v : String) :
    (d.node r).get k = .ok v ↔ (d.committed (home r)).lookup k = some v := by
  rw [(h r hr.unrestored).get, hr.applied, List.take_length]
  unfold committed
  cases (storeOf (d.log (home r))).lookup k <;> simp

omit [DecidableEq Shard] [DecidableEq Replica] in
theorem Replays.keys_current (h : d.Replays home) {r : Replica} (hr : d.Current home r) :
    (d.node r).keys = (d.committed (home r)).keys := by
  obtain ⟨hshared, -, hstore⟩ := h r hr.unrestored
  rw [hr.applied, List.take_length] at hstore
  rw [hshared.agrees.keys, hstore]
  rfl

end

end Replicas

end ShardedKvs
