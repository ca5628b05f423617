import ShardedKvs.KvStore.Basic

/-!
# Snapshots that share the live map

`KVFsm.Snapshot` does not copy the map: the snapshot refers to the live one, and `Persist` reads it
while later entries are being applied.  The keys of one snapshot may therefore be read at different
positions of the log, all at or after the position the snapshot is filed under.

* `Node.PersistedBetween log i j snap` : `snap` can be written by `Persist` for the snapshot taken
  after `i` entries, while the replica goes on to entry `j`, each key being read at some moment in
  between.
* `Node.restore_and_replay` : **a fresh replica that restores any such snapshot and applies the
  entries after `i` ends with the store of the whole log.**  Key by key, either an entry after `i`
  decides the value, whatever was restored, or none does and the key read the same at every moment.
-/

namespace ShardedKvs

namespace Node

variable {n n' : Node} {log : List KVFSMLogEntry} {i j : ℕ} {snap : KVFSMSnapshot}

/-- `Persist` may write `snap` for the snapshot taken after `i` entries of `log` while the replica
applies on to entry `j`: each key is read, through the reference that the snapshot holds, at some
moment between the two. -/
def PersistedBetween (log : List KVFSMLogEntry) (i j : ℕ) (snap : KVFSMSnapshot) : Prop :=
  ∃ a, opened.applyAll (log.take i) = some a ∧ snap.writesEnabled = a.snapshot.writesEnabled ∧
    ∀ k, ∃ t, i ≤ t ∧ t ≤ j ∧ ∃ b, a.applyAll ((log.take t).drop i) = some b ∧
      snap.kvStore.lookup k = (b.heap.contents a.snapshot.store).lookup k

/-- `Persist` may read the whole map at one moment. -/
theorem persistedBetween_persist (log : List KVFSMLogEntry) {a b : Node} {t : ℕ} (hit : i ≤ t)
    (htj : t ≤ j) (ha : opened.applyAll (log.take i) = some a)
    (hb : a.applyAll ((log.take t).drop i) = some b) :
    PersistedBetween log i j (a.snapshot.persist b.heap) :=
  ⟨a, ha, rfl, fun _ => ⟨t, hit, htj, b, hb, rfl⟩⟩

theorem vars_fsm_opened : opened.heap.vars opened.fsm.store = some 0 := rfl

theorem vars_fsm_pointAt (m : Contents) :
    (n.pointAt (some m)).heap.vars (n.pointAt (some m)).fsm.store = some n.heap.nextMap := by
  simp [pointAt, Heap.alloc]

theorem applyAll_opened (log : List KVFSMLogEntry) :
    ∃ n, opened.applyAll log = some n ∧ n.heap.vars n.fsm.store = some 0 ∧
      n.fsmStore = storeOf log := by
  obtain ⟨n, hn, hvars, -, hfsm, hstore, -⟩ := exists_applyAll vars_fsm_opened log
  refine ⟨n, hn, ?_, ?_⟩
  · rw [hvars, hfsm]; rfl
  · rw [hstore]; rfl

/-- The reference in a snapshot follows the live store of the replica that took it. -/
theorem contents_snapshot {r : ℕ} (h : n.heap.vars n.fsm.store = some r)
    (happ : n.applyAll log = some n') : n'.heap.contents n.snapshot.store = n'.fsmStore := by
  obtain ⟨n₁, h₁, hvars, -, hfsm, -, -⟩ := exists_applyAll h log
  rw [happ] at h₁
  cases h₁
  unfold fsmStore Heap.read snapshot
  rw [hvars, hfsm]

/-- Each key of a persisted snapshot is the key's value at some position between `i` and `j`. -/
theorem PersistedBetween.lookup (h : PersistedBetween log i j snap) (k : String) :
    ∃ t, i ≤ t ∧ t ≤ j ∧
      snap.kvStore.lookup k = latest (KVFSMLogEntry.pickKey k) none (log.take t) := by
  obtain ⟨a, ha, -, hread⟩ := h
  obtain ⟨t, hit, htj, b, hb, hk⟩ := hread k
  obtain ⟨a', ha', hvars, hstore⟩ := applyAll_opened (log.take i)
  rw [ha] at ha'
  cases ha'
  have hsplit : log.take t = log.take i ++ (log.take t).drop i := by
    have := (List.take_append_drop i (log.take t)).symm
    rwa [List.take_take, Nat.min_eq_left hit] at this
  refine ⟨t, hit, htj, ?_⟩
  rw [hk, contents_snapshot hvars hb, fsmStore_applyAll hb, hstore, lookup_foldl_applyTo,
    lookup_storeOf, ← latest_append, ← hsplit]

/-- Replaying the entries after `i` over what was persisted gives the store of the whole log. -/
theorem PersistedBetween.foldl_drop (h : PersistedBetween log i j snap) :
    (log.drop i).foldl KVFSMLogEntry.applyTo snap.kvStore = storeOf log := by
  apply Finmap.ext_lookup
  intro k
  obtain ⟨t, hit, -, hk⟩ := h.lookup k
  rw [lookup_foldl_applyTo, lookup_storeOf, hk, latest_replay hit]

/-- **A snapshot plus the rest of the log rebuilds the store**, although the snapshot shares the
live map.  A replica `a` that applies the whole log never panics.  A fresh replica `b` that points
its state machine at the restored map, a nil map read as the empty one, and applies the entries
after `i`, ends with the store of `a`.  A fresh replica that keeps the nil map of `Unmarshal` does
so too, unless it panics. -/
theorem restore_and_replay (log : List KVFSMLogEntry) (i j : ℕ) (snap : KVFSMSnapshot)
    (h : PersistedBetween log i j snap) :
    ∃ a b, opened.applyAll log = some a ∧
      (opened.pointAt (some (snap.unmarshalMap.getD ∅))).applyAll (log.drop i) = some b ∧
      b.fsmStore = a.fsmStore ∧
      ∀ b', (opened.restore snap).applyAll (log.drop i) = some b' → b'.fsmStore = a.fsmStore := by
  obtain ⟨a, ha, -, hstore⟩ := applyAll_opened log
  obtain ⟨b, hb, -⟩ := exists_applyAll (n := opened.pointAt (some (snap.unmarshalMap.getD ∅)))
    (vars_fsm_pointAt _) (log.drop i)
  refine ⟨a, b, ha, hb, ?_, fun b' hb' => ?_⟩
  · rw [fsmStore_applyAll hb, fsmStore_pointAt, Option.getD_some, snap.getD_unmarshalMap,
      h.foldl_drop, hstore]
  · rw [fsmStore_applyAll hb', fsmStore_restore, h.foldl_drop, hstore]

/-- A snapshot that never was the store at any moment: `a` is read before it is deleted, `b` after
it is set. -/
theorem restore_and_replay_mixed :
    PersistedBetween [.set "a" "1", .delete "a", .set "b" "2"] 1 3
        ⟨((∅ : Contents).insert "a" "1").insert "b" "2", true⟩ ∧
      ∃ a b, opened.applyAll [.set "a" "1", .delete "a", .set "b" "2"] = some a ∧
        (opened.pointAt (some (((∅ : Contents).insert "a" "1").insert "b" "2"))).applyAll
          [.delete "a", .set "b" "2"] = some b ∧ b.fsmStore = a.fsmStore := by
  have h : PersistedBetween [.set "a" "1", .delete "a", .set "b" "2"] 1 3
      ⟨((∅ : Contents).insert "a" "1").insert "b" "2", true⟩ := by
    refine ⟨_, rfl, rfl, fun k => ?_⟩
    by_cases hk : k = "a"
    · exact ⟨1, le_rfl, by omega, _, rfl, by subst hk; rfl⟩
    · refine ⟨3, by omega, le_rfl, _, rfl, ?_⟩
      have hread : ∀ m : Contents, m = (∅ : Contents).insert "b" "2" →
          (((∅ : Contents).insert "a" "1").insert "b" "2").lookup k = m.lookup k := by
        rintro m rfl
        simp [lookup_insert_eq, hk]
      exact hread _ (by decide)
  obtain ⟨a, b, ha, hb, hab, -⟩ := restore_and_replay _ _ _ _ h
  exact ⟨h, a, b, ha, hb, hab⟩

end Node

end ShardedKvs
