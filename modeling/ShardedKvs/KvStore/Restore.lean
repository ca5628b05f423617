import Mathlib.Logic.Function.Basic
import ShardedKvs.KvStore.Basic

/-!
# A state machine after a restore

`Persist` writes the map of a snapshot as a message, and a message without map entries comes back
with a nil map.  `Restore` points the state machine at whatever comes back.  A nil map can be read,
and keys can be removed from it, but the next `SET` panics; and as the log is replayed at every
start, it panics again.

* `Snapshots` : the replicas of a shard, the snapshots they have taken, and the files.
* `Snapshots.machine` : every order of `Apply`, `Snapshot`, `Persist` and `Restore` callbacks and of
  restarts, each replica restoring any file.
* `Node.setSucceeds_iff` : a `SET` needs a map.
* `Snapshots.set_iff` : **a `SET` succeeds exactly if the last snapshot that the process has
  restored was not empty**.
* `Snapshots.not_set` : a store that was persisted while it was empty.
-/

namespace ShardedKvs

namespace Node

variable {n n' : Node} {e : KVFSMLogEntry}

/-- The map of the state machine is nil. -/
def Nil (n : Node) : Prop := n.heap.vars n.fsm.store = none

/-- The entry is applied, and its key is then present with its value. -/
def SetSucceeds (n : Node) (e : KVFSMLogEntry) : Prop :=
  ∃ n', n.apply e = some n' ∧ n'.fsmStore.lookup e.getKey = some e.getValue

theorem apply_of_nil (h : n.Nil) (he : e.operation = SET) : n.apply e = none := by
  have hset : n.heap.set n.fsm.store e.getKey e.getValue = none := by
    unfold Heap.set
    rw [show n.heap.vars n.fsm.store = none from h]
  unfold apply
  rw [if_pos he]
  split
  · rfl
  · rename_i hsome
    rw [hset] at hsome
    cases hsome

/-- A `SET` needs a map, and no more than that. -/
theorem setSucceeds_iff (he : e.operation = SET) : n.SetSucceeds e ↔ ¬ n.Nil := by
  constructor
  · rintro ⟨n', hn', -⟩ hnil
    rw [apply_of_nil hnil he] at hn'
    cases hn'
  · intro hnil
    obtain ⟨r, hr⟩ := Option.ne_none_iff_exists'.1 hnil
    obtain ⟨n', hn'⟩ := exists_apply hr e
    refine ⟨n', hn', ?_⟩
    rw [(applied_of_apply hn').fsmStore, KVFSMLogEntry.lookup_applyTo]
    simp [KVFSMLogEntry.pickKey, he]

theorem not_nil_opened : ¬ opened.Nil := Option.some_ne_none 0

theorem nil_apply (h : n.apply e = some n') : n'.Nil ↔ n.Nil := by
  have ha := applied_of_apply h
  unfold Nil
  rw [ha.vars, ha.fsm_store]

theorem nil_restore (n : Node) (snap : KVFSMSnapshot) :
    (n.restore snap).Nil ↔ snap.kvStore = ∅ := by
  unfold Nil restore pointAt KVFSMSnapshot.unmarshalMap
  split_ifs with h <;> simp [Heap.alloc, h]

end Node

/-- The replicas of a shard and their snapshots. -/
structure Snapshots (R : Type*) where
  node : R → Node
  /-- The snapshots that the process of each replica has taken. -/
  taken : R → List FsmSnapshot
  /-- The files that have been persisted.  Raft sends them from one replica to another. -/
  files : List KVFSMSnapshot
  /-- The last snapshot that the process of each replica has restored. -/
  restored : R → Option KVFSMSnapshot

namespace Snapshots

variable {R : Type*}

/-- The callbacks of Raft on a replica, and its restart. -/
inductive Label (R : Type*) where
  | apply (r : R) (e : KVFSMLogEntry)
  | snapshot (r : R)
  /-- `Persist` of the `i`-th snapshot that the process has taken. -/
  | persist (r : R) (i : ℕ)
  /-- `Restore` of the `i`-th file. -/
  | restore (r : R) (i : ℕ)
  | restart (r : R)

/-- Replicas that have just been opened. -/
def opened (R : Type*) : Snapshots R := ⟨fun _ => Node.opened, fun _ => [], [], fun _ => none⟩

variable [DecidableEq R]

/-- One callback. -/
def next (s : Snapshots R) : Label R → Option (Snapshots R)
  | .apply r e => ((s.node r).apply e).map fun n => { s with node := Function.update s.node r n }
  | .snapshot r =>
    some { s with taken := Function.update s.taken r (s.taken r ++ [(s.node r).snapshot]) }
  | .persist r i =>
    (s.taken r)[i]?.map fun fs => { s with files := s.files ++ [fs.persist (s.node r).heap] }
  | .restore r i =>
    s.files[i]?.map fun snap =>
      { s with
        node := Function.update s.node r ((s.node r).restore snap)
        restored := Function.update s.restored r (some snap) }
  | .restart r =>
    -- the snapshots of the old process are gone, the files are not
    some { s with
      node := Function.update s.node r Node.opened
      taken := Function.update s.taken r []
      restored := Function.update s.restored r none }

/-- Every order of callbacks and restarts. -/
def machine : Machine (Snapshots R) (Label R) := ⟨next⟩

omit [DecidableEq R] in
/-- The map of a process is nil exactly when the last snapshot that it has restored was empty. -/
def NilRestored (s : Snapshots R) : Prop :=
  ∀ r, (s.node r).Nil ↔ ∃ snap, s.restored r = some snap ∧ snap.kvStore = ∅

variable {s s' : Snapshots R}

/-- Only the process that takes the step has to be looked at. -/
theorem NilRestored.update (h : s.NilRestored) {r : R} {n : Node} {x : Option KVFSMSnapshot}
    (hn : n.Nil ↔ ∃ snap, x = some snap ∧ snap.kvStore = ∅) (r' : R) :
    (Function.update s.node r n r').Nil ↔
      ∃ snap, Function.update s.restored r x r' = some snap ∧ snap.kvStore = ∅ := by
  by_cases hr : r' = r
  · rw [hr, Function.update_self, Function.update_self]
    exact hn
  · rw [Function.update_of_ne hr, Function.update_of_ne hr]
    exact h r'

theorem NilRestored.next {l : Label R} (h : s.NilRestored) (hst : s.next l = some s') :
    s'.NilRestored := by
  cases l with
  | apply r e =>
    obtain ⟨n, hn, rfl⟩ := Option.map_eq_some_iff.1 hst
    intro r'
    have hupdate := h.update (r := r) ((Node.nil_apply hn).trans (h r)) r'
    rwa [Function.update_eq_self] at hupdate
  | snapshot r =>
    cases hst
    exact h
  | persist r i =>
    obtain ⟨fs, -, rfl⟩ := Option.map_eq_some_iff.1 hst
    exact h
  | restore r i =>
    obtain ⟨snap, -, rfl⟩ := Option.map_eq_some_iff.1 hst
    intro r'
    refine h.update ?_ r'
    rw [Node.nil_restore]
    simp
  | restart r =>
    cases hst
    intro r'
    refine h.update ?_ r'
    simp [Node.not_nil_opened]

/-- **When a `SET` succeeds.**  For every sequence of `Apply`, `Snapshot`, `Persist` and `Restore`
callbacks and restarts on the replicas of a shard: a `SET` that is applied next succeeds, and leaves
its key present with its value, exactly if the process has not restored an empty snapshot last. -/
theorem set_iff (s : Snapshots R) (h : machine.Reached (opened R) s) (r : R) (e : KVFSMLogEntry)
    (he : e.operation = SET) :
    (s.node r).SetSucceeds e ↔ ∀ snap, s.restored r = some snap → snap.kvStore ≠ ∅ := by
  have hinv : s.NilRestored := by
    refine h.invariant ?_ fun s l s' hi _ hst => hi.next hst
    intro r'
    simp [opened, Node.not_nil_opened]
  rw [Node.setSucceeds_iff he, hinv r, not_exists]
  exact forall_congr' fun snap => not_and

/-- A replica with one key takes a snapshot and is restarted. -/
theorem set_iff_restart :
    ∃ s : Snapshots Unit, machine.Reached (opened Unit) s ∧ s.restored () ≠ none ∧
      (s.node ()).SetSucceeds (.set "b" "2") := by
  obtain ⟨s, hs, hrestored⟩ : ∃ s : Snapshots Unit, machine.Reached (opened Unit) s ∧
      s.restored () = some ⟨(∅ : Contents).insert "a" "1", true⟩ :=
    ⟨_, Machine.Reached.of_run [.apply () (.set "a" "1"), .snapshot (), .persist () 0, .restart (),
      .restore () 0] rfl, rfl⟩
  refine ⟨s, hs, by rw [hrestored]; simp, ?_⟩
  refine (set_iff s hs () (.set "b" "2") rfl).2 fun snap hsnap => ?_
  rw [hrestored] at hsnap
  cases hsnap
  decide

/-- **A `SET` after the restore of an empty snapshot panics.**  The store was empty when it was
persisted: its only key had been deleted. -/
theorem not_set :
    ¬ ∀ s : Snapshots Unit, machine.Reached (opened Unit) s →
      (s.node ()).SetSucceeds (.set "b" "2") := by
  intro h
  have hbad := h _ (Machine.Reached.of_run [.apply () (.set "a" "1"), .apply () (.delete "a"),
    .snapshot (), .persist () 0, .restart (), .restore () 0] rfl)
  rw [Node.setSucceeds_iff rfl] at hbad
  exact hbad rfl

end Snapshots

end ShardedKvs
