import ShardedKvs.Replica.Drain

/-!
# What the replicas of a shard answer

`shardRpcServer.Get` answers from the `KVStore` of the replica that happens to get the request, and
never asks the leader.  Replicas lag behind, restore snapshots and restart, so two of them answer
differently at one moment.  What each of them answers is still a store that the shard has had.

* `Serving.machine` : commits, and replicas that apply, restore and restart in any order.
* `Serving.reads_prefix` : **every replica answers from a prefix of the committed log** of its
  shard, in every reachable state, whatever snapshots have been restored.
* `Serving.reads_monotone` : **the prefix only grows while the process runs**, and does not grow any
  more once a snapshot has been restored.
* `Serving.nothing_found_after_restored_start` : a process that starts from a snapshot finds no key
  for as long as it runs.
* `Draining.put_of_get` : **no value is invented**: during a scale operation with all its delays and
  failures, whatever a replica answers for a key has been put for that key by a client.
-/

namespace ShardedKvs

/-- What `KVStore.Get` answers from the given contents. -/
def answer (m : Contents) (k : String) : Except KeyNotFound String :=
  match m.lookup k with
  | some v => .ok v
  | none => .error {}

theorem Node.get_eq_answer (n : Node) (k : String) :
    n.get k = answer (n.heap.read n.kvStore.store) k := rfl

theorem answer_eq_ok_iff {m : Contents} {k v : String} :
    answer m k = .ok v ↔ m.lookup k = some v := by
  unfold answer
  cases m.lookup k <;> simp

namespace Replicas

variable {Shard Replica : Type*} {home : Replica → Shard} {d d' : Replicas Shard Replica}
  {r : Replica} {i : ℕ}

/-- The process of `r` reads the store of the first `i` committed entries: it has applied exactly
those, or its `KVStore` has been left behind there by a `Restore`. -/
inductive Serves (home : Replica → Shard) (d : Replicas Shard Replica) (r : Replica) (i : ℕ) : Prop
  | live : (d.node r).Shared → d.applied r = i → i ≤ (d.log (home r)).length →
      (d.node r).fsmStore = storeOf ((d.log (home r)).take i) → Serves home d r i
  | frozen : (d.node r).Detached (storeOf ((d.log (home r)).take i)) →
      i ≤ (d.log (home r)).length → Serves home d r i

theorem Serves.le (h : d.Serves home r i) : i ≤ (d.log (home r)).length := by
  cases h with
  | live _ _ hle _ => exact hle
  | frozen _ hle => exact hle

theorem Serves.read (h : d.Serves home r i) :
    (d.node r).heap.read (d.node r).kvStore.store = storeOf ((d.log (home r)).take i) := by
  cases h with
  | live hshared _ _ hstore => rw [hshared.1]; exact hstore
  | frozen hdetached _ => exact hdetached.2.2

theorem serves_opened (home : Replica → Shard) (r : Replica) :
    (opened Shard Replica).Serves home r 0 :=
  .live Node.shared_opened rfl le_rfl rfl

/-- A process that has not been restored is up to the entries that it has applied. -/
theorem Serves.eq_applied (h : d.Serves home r i) (hr : d.Unrestored r) : i = d.applied r := by
  cases h with
  | live _ happlied _ _ => exact happlied.symm
  | frozen hdetached _ =>
    -- equal pointers refer to the same map
    exact absurd (congrArg (d.node r).heap.vars hr) hdetached.2.1

/-- What a process reads depends on its own node and the log of its shard only. -/
theorem Serves.congr (h : d.Serves home r i) (hnode : d'.node r = d.node r)
    (happlied : d'.applied r = d.applied r) (hlog : d.log (home r) <+: d'.log (home r)) :
    d'.Serves home r i := by
  obtain ⟨rest, hrest⟩ := hlog
  have htake : (d'.log (home r)).take i = (d.log (home r)).take i := by
    rw [← hrest, List.take_append_of_le_length h.le]
  have hle : i ≤ (d'.log (home r)).length := by
    rw [← hrest, List.length_append]
    exact h.le.trans (Nat.le_add_right _ _)
  cases h with
  | live hshared heq _ hstore =>
    refine .live ?_ (happlied.trans heq) hle ?_
    · rw [hnode]; exact hshared
    · rw [hnode, htake]; exact hstore
  | frozen hdetached _ =>
    refine .frozen ?_ hle
    rw [hnode, htake]
    exact hdetached

section Steps

variable [DecidableEq Shard] [DecidableEq Replica]

omit [DecidableEq Replica] in
theorem prefix_append (x y : Shard) (e : KVFSMLogEntry) : d.log y <+: (d.append x e).log y := by
  rw [log_append]
  split_ifs with hy
  · subst hy
    exact List.prefix_append _ _
  · exact List.prefix_rfl

omit [DecidableEq Replica] in
theorem Serves.append (h : d.Serves home r i) (x : Shard) (e : KVFSMLogEntry) :
    (d.append x e).Serves home r i :=
  h.congr rfl rfl (prefix_append x (home r) e)

omit [DecidableEq Shard] in
theorem Serves.setNode_of_ne {q : Replica} {n : Node} {index : ℕ} (h : d.Serves home r i)
    (hne : r ≠ q) : (d.setNode q n index).Serves home r i :=
  h.congr (Function.update_of_ne hne ..) (Function.update_of_ne hne ..) List.prefix_rfl

omit [DecidableEq Shard] in
theorem serves_restart (d : Replicas Shard Replica) (r : Replica) :
    (d.setNode r Node.opened 0).Serves home r 0 := by
  refine .live ?_ (Function.update_self ..) (Nat.zero_le _) ?_ <;>
    simp only [Replicas.setNode, Function.update_self]
  · exact Node.shared_opened
  · rfl

omit [DecidableEq Shard] in
theorem Serves.restore (h : d.Serves home r i) (snap : KVFSMSnapshot) (index : ℕ) :
    (d.restore r snap index).Serves home r i := by
  refine .frozen ?_ h.le
  simp only [Replicas.restore, Replicas.setNode, Function.update_self]
  cases h with
  | live hshared _ _ hstore =>
    rw [← hstore]
    exact Node.detached_restore hshared snap
  | frozen hdetached _ =>
    exact hdetached.step (show (d.node r).step (.restore snap) = some _ from rfl)

omit [DecidableEq Shard] in
/-- An `Apply` is seen by a process that has not been restored. -/
theorem Serves.apply (h : d.Serves home r i) (hst : d.apply home r = some d') :
    d'.Serves home r (if d.Unrestored r then d'.applied r else i) := by
  unfold Replicas.apply at hst
  split at hst
  · -- nothing to apply
    cases hst
    split_ifs with hr
    · rw [← h.eq_applied hr]; exact h
    · exact h
  · rename_i e he
    obtain ⟨n, hn, rfl⟩ := Option.map_eq_some_iff.1 hst
    have ha := Node.applied_of_apply hn
    cases h with
    | live hshared happlied hle hstore =>
      have hr : d.Unrestored r := hshared.1
      rw [if_pos hr]
      obtain ⟨hptr, p, hp⟩ := hshared
      subst happlied
      refine .live ?_ rfl ?_ ?_ <;> simp only [Replicas.setNode, Function.update_self]
      · refine ⟨by rw [ha.kvStore, ha.fsm_store, hptr], p, ?_⟩
        rw [ha.vars, ha.fsm_store, hp]
      · exact (List.getElem?_eq_some_iff.1 he).1
      · rw [ha.fsmStore, hstore, List.take_add_one, he]
        simp [storeOf]
    | frozen hdetached hle =>
      have hr : ¬ d.Unrestored r := fun hr =>
        hdetached.2.1 (congrArg (d.node r).heap.vars hr)
      rw [if_neg hr]
      refine .frozen ?_ hle
      simp only [Replicas.setNode, Function.update_self]
      exact hdetached.step (show (d.node r).step (.apply e) = some n from hn)

omit [DecidableEq Shard] in
theorem Serves.apply_of_ne {q : Replica} (h : d.Serves home r i) (hne : r ≠ q)
    (hst : d.apply home q = some d') : d'.Serves home r i := by
  unfold Replicas.apply at hst
  split at hst
  · cases hst; exact h
  · obtain ⟨n, -, rfl⟩ := Option.map_eq_some_iff.1 hst
    exact h.setNode_of_ne hne

end Steps

end Replicas

/-! ### Runs of the replicas of all shards -/

/-- The shards and their replica processes, while requests are served. -/
structure Serving (Shard Replica : Type*) extends Replicas Shard Replica where
  /-- The number of committed entries that `Get` on the replica reflects. -/
  readIndex : Replica → ℕ

namespace Serving

variable {Shard Replica : Type*}

/-- The steps of Raft. -/
inductive Label (Shard Replica : Type*) where
  | commit (x : Shard) (e : KVFSMLogEntry)
  | apply (r : Replica)
  /-- Raft restores a snapshot, at the start of the process or when the replica is far behind. -/
  | restore (r : Replica) (snap : KVFSMSnapshot) (index : ℕ)
  | restart (r : Replica)

/-- Shards whose replicas have just been opened. -/
def opened (Shard Replica : Type*) : Serving Shard Replica :=
  ⟨Replicas.opened Shard Replica, fun _ => 0⟩

variable [DecidableEq Shard] [DecidableEq Replica] (home : Replica → Shard)

/-- One step. -/
def next (s : Serving Shard Replica) : Label Shard Replica → Option (Serving Shard Replica)
  | .commit x e => some { s with toReplicas := s.toReplicas.append x e }
  | .apply r => (s.toReplicas.apply home r).map fun d =>
    ⟨d, if s.Unrestored r then Function.update s.readIndex r (d.applied r) else s.readIndex⟩
  | .restore r snap index => some { s with toReplicas := s.toReplicas.restore r snap index }
  | .restart r =>
    some ⟨s.toReplicas.setNode r Node.opened 0, Function.update s.readIndex r 0⟩

/-- Every order of steps. -/
def machine : Machine (Serving Shard Replica) (Label Shard Replica) := ⟨next home⟩

variable {home} {s s' : Serving Shard Replica}

/-- Every replica reads the prefix up to its `readIndex`. -/
def Inv (home : Replica → Shard) (s : Serving Shard Replica) : Prop :=
  ∀ r, s.toReplicas.Serves home r (s.readIndex r)

theorem Inv.next {l : Label Shard Replica} (h : Inv home s) (hst : s.next home l = some s') :
    Inv home s' := by
  intro r
  cases l with
  | commit x e => cases hst; exact (h r).append x e
  | apply q =>
    obtain ⟨d, hd, rfl⟩ := Option.map_eq_some_iff.1 hst
    by_cases hrq : r = q
    · subst hrq
      have happly := (h r).apply hd
      split_ifs at happly with hr
      · simpa only [if_pos hr, Function.update_self] using happly
      · simpa only [if_neg hr] using happly
    · have happly := (h r).apply_of_ne hrq hd
      split_ifs
      · simpa only [Function.update_of_ne hrq] using happly
      · exact happly
  | restore q snap index =>
    cases hst
    by_cases hrq : r = q
    · subst hrq
      exact (h r).restore snap index
    · exact (h r).setNode_of_ne hrq
  | restart q =>
    cases hst
    by_cases hrq : r = q
    · subst hrq
      simpa only [Function.update_self] using Replicas.serves_restart s.toReplicas r
    · simpa only [Function.update_of_ne hrq] using (h r).setNode_of_ne hrq

theorem inv_of_reached (h : (machine home).Reached (opened Shard Replica) s) : Inv home s :=
  h.invariant (I := Inv home) (fun r => Replicas.serves_opened home r)
    fun _ _ _ hi _ hst => hi.next hst

/-- **Every replica answers from a prefix of the committed log of its shard.**  In every reachable
state `Get` and `Keys` on a replica see exactly the store of the first `readIndex` entries, however
far behind the replica is and whatever snapshots have been restored on it. -/
theorem reads_prefix (h : (machine home).Reached (opened Shard Replica) s) (r : Replica) :
    s.readIndex r ≤ (s.log (home r)).length ∧
      (∀ k, (s.node r).get k = answer (storeOf ((s.log (home r)).take (s.readIndex r))) k) ∧
      (s.node r).keys = (storeOf ((s.log (home r)).take (s.readIndex r))).keys := by
  have hserves := inv_of_reached h r
  refine ⟨hserves.le, fun k => ?_, ?_⟩
  · rw [Node.get_eq_answer, hserves.read]
  · rw [Node.keys, hserves.read]

/-- The shard has two replicas.  The second one has restored a snapshot after the first entry, and
still answers from that entry when both have applied the second. -/
theorem reads_prefix_restored :
    ∃ s, (machine fun _ : Bool => ()).Reached (opened Unit Bool) s ∧ s.readIndex false = 2 ∧
      s.readIndex true = 1 ∧
      (s.node true).get "a" = answer (storeOf ((s.log ()).take 1)) "a" := by
  have hs : (machine fun _ : Bool => ()).Reached (opened Unit Bool) _ := .of_run
    [.commit () (.set "a" "1"), .apply false, .apply true,
      .restore true ⟨(∅ : Contents).insert "a" "1", true⟩ 1, .commit () (.set "a" "2"),
      .apply false, .apply true] rfl
  obtain ⟨-, hget, -⟩ := reads_prefix hs true
  exact ⟨_, hs, rfl, rfl, hget "a"⟩

/-! ### The prefix over time -/

/-- What a step that does not restart `r` does to the prefix that `r` reads. -/
theorem readIndex_next {r : Replica} {l : Label Shard Replica} (h : Inv home s)
    (hl : l ≠ .restart r) (hst : s.next home l = some s') :
    s.log (home r) <+: s'.log (home r) ∧ s.readIndex r ≤ s'.readIndex r ∧
      (¬ s.Unrestored r → s'.readIndex r = s.readIndex r ∧ ¬ s'.Unrestored r) := by
  cases l with
  | commit x e =>
    cases hst
    exact ⟨Replicas.prefix_append x (home r) e, le_rfl, fun hr => ⟨rfl, hr⟩⟩
  | apply q =>
    obtain ⟨d, hd, rfl⟩ := Option.map_eq_some_iff.1 hst
    have hlog : d.log = s.log := Replicas.log_apply hd
    have hr' := Replicas.unrestored_apply hd r
    refine ⟨by rw [hlog], ?_, fun hr => ⟨?_, fun hd' => hr (hr'.1 hd')⟩⟩
    · by_cases hq : s.Unrestored q
      · by_cases hrq : r = q
        · subst hrq
          simp only [if_pos hq, Function.update_self]
          rw [(h r).eq_applied hq]
          -- `Apply` moves the index forward or finds nothing to apply
          unfold Replicas.apply at hd
          split at hd
          · cases hd; exact le_rfl
          · obtain ⟨n, -, rfl⟩ := Option.map_eq_some_iff.1 hd
            simp only [Replicas.setNode, Function.update_self]
            omega
        · simp only [if_pos hq, Function.update_of_ne hrq]; exact le_rfl
      · simp only [if_neg hq]; exact le_rfl
    · by_cases hq : s.Unrestored q
      · have hrq : r ≠ q := fun hrq => hr (hrq ▸ hq)
        simp only [if_pos hq, Function.update_of_ne hrq]
      · simp only [if_neg hq]
  | restore q snap index =>
    cases hst
    refine ⟨List.prefix_rfl, le_rfl, fun hr => ⟨rfl, fun hr' => hr ?_⟩⟩
    rw [Replicas.Unrestored, Replicas.restore] at hr'
    by_cases hrq : r = q
    · subst hrq
      simp only [Replicas.setNode, Function.update_self] at hr'
      exact absurd hr' (s.node r).kvStore_lt.ne
    · simp only [Replicas.setNode, Function.update_of_ne hrq] at hr'
      exact hr'
  | restart q =>
    cases hst
    have hrq : r ≠ q := fun hrq => hl (hrq ▸ rfl)
    refine ⟨List.prefix_rfl, ?_, fun hr => ⟨?_, fun hr' => hr ?_⟩⟩
    · simp only [Function.update_of_ne hrq]; exact le_rfl
    · simp only [Function.update_of_ne hrq]
    · simpa only [Replicas.Unrestored, Replicas.setNode, Function.update_of_ne hrq] using hr'

theorem readIndex_of_run (h : Inv home s) (r : Replica)
    (hrun : (machine home).ReachedBy (fun _ l => l ≠ .restart r) s s') :
    Inv home s' ∧ s.log (home r) <+: s'.log (home r) ∧ s.readIndex r ≤ s'.readIndex r ∧
      (¬ s.Unrestored r → s'.readIndex r = s.readIndex r ∧ ¬ s'.Unrestored r) := by
  refine hrun.invariant (I := fun s₁ => Inv home s₁ ∧ s.log (home r) <+: s₁.log (home r) ∧
    s.readIndex r ≤ s₁.readIndex r ∧
    (¬ s.Unrestored r → s₁.readIndex r = s.readIndex r ∧ ¬ s₁.Unrestored r))
    ⟨h, List.prefix_rfl, le_rfl, fun hr => ⟨rfl, hr⟩⟩ ?_
  rintro s₁ l s₂ ⟨hi, hlog, hle, hfrozen⟩ hl hst
  obtain ⟨hlog', hle', hfrozen'⟩ := readIndex_next hi hl hst
  refine ⟨hi.next hst, hlog.trans hlog', hle.trans hle', fun hr => ?_⟩
  obtain ⟨heq, hr₁⟩ := hfrozen hr
  obtain ⟨heq', hr₂⟩ := hfrozen' hr₁
  exact ⟨heq'.trans heq, hr₂⟩

/-- **Reads on one replica never go back.**  From every reachable state, as long as the process of
`r` is not restarted, the log only grows, and so does the prefix that `r` answers from; once a
snapshot has been restored in the process, `r` answers from the same prefix for ever. -/
theorem reads_monotone (h : (machine home).Reached (opened Shard Replica) s) (r : Replica)
    (hrun : (machine home).ReachedBy (fun _ l => l ≠ .restart r) s s') :
    s.log (home r) <+: s'.log (home r) ∧ s.readIndex r ≤ s'.readIndex r ∧
      (¬ s.Unrestored r → s'.readIndex r = s.readIndex r) := by
  obtain ⟨-, hlog, hle, hfrozen⟩ := readIndex_of_run (inv_of_reached h) r hrun
  exact ⟨hlog, hle, fun hr => (hfrozen hr).1⟩

/-- A replica that has restored a snapshot applies another entry, and answers as before. -/
theorem reads_monotone_restored :
    ∃ s s' : Serving Unit Bool, (machine fun _ : Bool => ()).Reached (opened Unit Bool) s ∧
      (s.log ()).length = 1 ∧ (s'.log ()).length = 2 ∧ s'.readIndex true = s.readIndex true := by
  have hs : (machine fun _ : Bool => ()).Reached (opened Unit Bool) _ := .of_run
    [.commit () (.set "a" "1"), .apply true,
      .restore true ⟨(∅ : Contents).insert "a" "1", true⟩ 1] rfl
  obtain ⟨-, -, hfrozen⟩ := reads_monotone hs true
    (.of_run [.commit () (.set "a" "2"), .apply true] (by simp) rfl)
  exact ⟨_, _, hs, rfl, rfl, hfrozen (by decide)⟩

/-- **A process that starts from a snapshot finds no key.**  Raft restores the latest snapshot while
the process is being opened; from then on `Get` reports `KeyNotFound` for every key and `Keys` is
empty, whatever is committed and applied, until the process is restarted. -/
theorem nothing_found_after_restored_start
    (h : (machine home).Reached (opened Shard Replica) s) (r : Replica) (snap : KVFSMSnapshot)
    (index : ℕ) {s₁ : Serving Shard Replica}
    (hstart : (machine home).run s [.restart r, .restore r snap index] = some s₁)
    (hrun : (machine home).ReachedBy (fun _ l => l ≠ .restart r) s₁ s') :
    (∀ k, (s'.node r).get k = .error {}) ∧ (s'.node r).keys = ∅ := by
  have hinv : Inv home s₁ ∧ s₁.readIndex r = 0 ∧ ¬ s₁.Unrestored r := by
    have hopened : Inv home ⟨s.toReplicas.setNode r Node.opened 0,
        Function.update s.readIndex r 0⟩ := (inv_of_reached h).next (l := .restart r) rfl
    cases hstart
    refine ⟨hopened.next (l := .restore r snap index) rfl, Function.update_self .., ?_⟩
    simp only [Replicas.Unrestored, Replicas.restore, Replicas.setNode, Function.update_self]
    exact Nat.ne_of_lt Node.opened.kvStore_lt
  obtain ⟨hinv₁, hzero, hrestored⟩ := hinv
  obtain ⟨hinv', -, -, hfrozen⟩ := readIndex_of_run hinv₁ r hrun
  have hserves := hinv' r
  rw [(hfrozen hrestored).1, hzero] at hserves
  have hread : (s'.node r).heap.read (s'.node r).kvStore.store = ∅ := hserves.read
  refine ⟨fun k => ?_, ?_⟩
  · rw [Node.get_eq_answer, hread]
    rfl
  · rw [Node.keys, hread]
    rfl

/-- The only replica restarts from a snapshot of its only key. -/
theorem nothing_found_after_restored_start_one_key :
    ∃ s' : Serving Unit Unit, (s'.log ()).length = 2 ∧
      (∀ k, (s'.node ()).get k = .error {}) ∧ (s'.node ()).keys = ∅ := by
  have hs : (machine fun _ : Unit => ()).Reached (opened Unit Unit) _ := .of_run
    [.commit () (.set "a" "1"), .apply ()] rfl
  exact ⟨_, rfl, nothing_found_after_restored_start hs ()
    ⟨(∅ : Contents).insert "a" "1", true⟩ 1 rfl
    (.of_run [.commit () (.set "b" "2"), .apply ()] (by simp) rfl)⟩

end Serving

/-! ### Where the values come from -/

/-- A value in the store of a log has been set by an entry of the log. -/
theorem exists_set_of_lookup {log : List KVFSMLogEntry} {k v : String}
    (h : (storeOf log).lookup k = some v) : ∃ e ∈ log, e.pickKey k = some (some v) := by
  rw [lookup_storeOf] at h
  rcases latest_eq_or_exists (KVFSMLogEntry.pickKey k) none log with heq | ⟨e, he, hpick⟩
  · rw [heq] at h
    cases h
  · rw [h] at hpick
    exact ⟨e, he, hpick⟩

theorem KVFSMLogEntry.of_pickKey_set {k k' v v' : String}
    (h : (set k' v').pickKey k = some (some v)) : k = k' ∧ v = v' := by
  rw [pickKey_set] at h
  split_ifs at h with hk
  cases h
  exact ⟨hk, rfl⟩

theorem KVFSMLogEntry.pickKey_delete_ne {k k' v : String} :
    (delete k').pickKey k ≠ some (some v) := by
  rw [pickKey_delete]
  split_ifs <;> simp

/-- The only request that sets a key to a value is a `Put` of that value. -/
theorem Request.eq_put_of_pickKey {req : Request} {k v : String}
    (h : req.entry.pickKey k = some (some v)) :
    ∃ isRedistribution, req = .put k v isRedistribution := by
  cases req with
  | put k' v' isRedistribution =>
    obtain ⟨rfl, rfl⟩ := KVFSMLogEntry.of_pickKey_set h
    exact ⟨isRedistribution, rfl⟩
  | delete k' => exact absurd h KVFSMLogEntry.pickKey_delete_ne

namespace Movers

variable {Shard Replica : Type*} [DecidableEq Shard] [DecidableEq Replica]
  {S : Scale Shard Replica} {m m' : Movers Shard Replica}

omit [DecidableEq Replica] in
theorem serves_deliver {r : Replica} {i : ℕ} (h : m.Serves S.home r i) (out : Outcome) (x : Shard)
    (e : KVFSMLogEntry) : (m.deliver out x e).Serves S.home r i := by
  cases out with
  | ok => exact h.append x e
  | failed | lost => exact h

/-- Every step of Raft or of a goroutine leaves every replica reading some prefix. -/
theorem serves_step {l : MoveLabel Replica} (h : ∀ r, ∃ i, m.Serves S.home r i)
    (hst : m.step S l = some m') (r : Replica) : ∃ i, m'.Serves S.home r i := by
  obtain ⟨i, hi⟩ := h r
  cases l with
  | apply q =>
    obtain ⟨d, hd, rfl⟩ := Option.map_eq_some_iff.1 hst
    by_cases hrq : r = q
    · subst hrq
      exact ⟨_, hi.apply hd⟩
    · exact ⟨i, hi.apply_of_ne hrq hd⟩
  | restore q snap index =>
    cases hst
    by_cases hrq : r = q
    · subst hrq
      exact ⟨i, hi.restore snap index⟩
    · exact ⟨i, hi.setNode_of_ne hrq⟩
  | restart q =>
    cases hst
    by_cases hrq : r = q
    · subst hrq
      exact ⟨0, Replicas.serves_restart m.toReplicas r⟩
    · exact ⟨i, hi.setNode_of_ne hrq⟩
  | read q k =>
    simp only [step, read] at hst
    split_ifs at hst
    split at hst <;> cases hst <;> exact ⟨i, hi⟩
  | send q out =>
    simp only [step, send] at hst
    split at hst <;> cases hst
    exact ⟨i, serves_deliver hi out _ _⟩
  | purge q out =>
    simp only [step, purge] at hst
    split at hst <;> cases hst
    exact ⟨i, serves_deliver hi out _ _⟩
  | stop q underWay =>
    cases hst
    unfold stop
    split
    · cases underWay <;> exact ⟨i, hi⟩
    · exact ⟨i, hi⟩
  | settle j =>
    obtain ⟨c, hc, rfl⟩ := Option.map_eq_some_iff.1 hst
    obtain ⟨p, -, rfl⟩ := Calls.settle_eq_some hc
    exact ⟨i, hi.append p.1 p.2⟩

end Movers

namespace Draining

variable {Shard Replica : Type*} {S : Plan Shard Replica} {m m' : Movers Shard Replica}
  {history history' : List (Commit Shard)}

/-- A client's `Put` of the value for the key has been committed. -/
def PutBy (history : List (Commit Shard)) (k v : String) : Prop :=
  ∃ resumed x isRedistribution, Commit.client resumed x (.put k v isRedistribution) ∈ history

/-- Every value, wherever it is, has been put by a client. -/
structure Honest (S : Plan Shard Replica) (m : Movers Shard Replica)
    (history : List (Commit Shard)) : Prop where
  log : ∀ x, ∀ e ∈ m.log x, ∀ k v, e.pickKey k = some (some v) → PutBy history k v
  got : ∀ r k v, m.loop r = .got k v → PutBy history k v
  late : ∀ p ∈ m.late, ∀ k v, p.2.pickKey k = some (some v) → PutBy history k v
  serves : ∀ r, ∃ i, m.Serves S.home r i

theorem Honest.get (h : Honest S m history) {r : Replica} {k v : String}
    (hget : (m.node r).get k = .ok v) : PutBy history k v := by
  obtain ⟨i, hi⟩ := h.serves r
  rw [Node.get_eq_answer, hi.read, answer_eq_ok_iff] at hget
  obtain ⟨e, he, hpick⟩ := exists_set_of_lookup hget
  exact h.log (S.home r) e (List.mem_of_mem_take he) k v hpick

theorem Honest.mono (h : Honest S m history) (hsub : history ⊆ history') : Honest S m history' := by
  have hput : ∀ {k v}, PutBy history k v → PutBy history' k v := by
    rintro k v ⟨b, x, c, hmem⟩
    exact ⟨b, x, c, hsub hmem⟩
  exact ⟨fun x e he k v hp => hput (h.log x e he k v hp), fun r k v hl => hput (h.got r k v hl),
    fun p hp k v hpick => hput (h.late p hp k v hpick), h.serves⟩

theorem Honest.log_append [DecidableEq Shard] (h : Honest S m history) {x : Shard}
    {e : KVFSMLogEntry} (he : ∀ k v, e.pickKey k = some (some v) → PutBy history k v) (y : Shard) :
    ∀ e' ∈ (m.toReplicas.append x e).log y, ∀ k v, e'.pickKey k = some (some v) →
      PutBy history k v := by
  intro e' he' k v hpick
  rw [Replicas.log_append] at he'
  split_ifs at he' with hy
  · rcases List.mem_append.1 he' with hmem | hmem
    · exact h.log x e' hmem k v hpick
    · rw [List.mem_singleton.1 hmem] at hpick
      exact he k v hpick
  · exact h.log y e' he' k v hpick

theorem Honest.append [DecidableEq Shard] (h : Honest S m history) {x : Shard}
    {e : KVFSMLogEntry} (he : ∀ k v, e.pickKey k = some (some v) → PutBy history k v) :
    Honest S { m with toReplicas := m.toReplicas.append x e } history := by
  refine ⟨h.log_append he, h.got, h.late, fun r => ?_⟩
  obtain ⟨i, hi⟩ := h.serves r
  exact ⟨i, hi.append x e⟩

variable [DecidableEq Shard] [DecidableEq Replica]

omit [DecidableEq Shard] [DecidableEq Replica] in
theorem Honest.commits {l : MoveLabel Replica} (h : Honest S m history) {y : Shard}
    {e : KVFSMLogEntry} (hc : m.commits S.toScale l = some (y, e)) {k v : String}
    (hpick : e.pickKey k = some (some v)) : PutBy history k v := by
  unfold Movers.commits at hc
  split at hc
  · rename_i r
    split at hc <;> cases hc
    rename_i hl
    obtain ⟨rfl, rfl⟩ := KVFSMLogEntry.of_pickKey_set hpick
    exact h.got r k v hl
  · split at hc <;> cases hc
    exact absurd hpick KVFSMLogEntry.pickKey_delete_ne
  · exact h.late (y, e) (List.mem_of_getElem? hc) k v hpick
  · cases hc

/-- A step of Raft or of a goroutine carries values around, and makes none. -/
theorem Honest.move {l : MoveLabel Replica} (h : Honest S m history)
    (hst : m.step S.toScale l = some m') : Honest S m' history := by
  have hs := Movers.stepped_of_step hst
  refine ⟨fun x e he k v hpick => ?_, fun r k v hl => ?_, fun p hp k v hpick => ?_,
    Movers.serves_step h.serves hst⟩
  · rw [hs.log] at he
    split at he
    · exact h.log x e he k v hpick
    · rename_i y e' hcommits
      exact h.log_append (fun k v => h.commits hcommits) x e he k v hpick
  · rcases hs.got hl with hl | ⟨-, -, hget⟩
    · exact h.got r k v hl
    · exact h.get hget
  · rcases hs.late hp with hp | ⟨r, k', v', hl, rfl⟩ | ⟨r, k', -, rfl⟩
    · exact h.late p hp k v hpick
    · obtain ⟨rfl, rfl⟩ := KVFSMLogEntry.of_pickKey_set hpick
      exact h.got r k v hl
    · exact absurd hpick KVFSMLogEntry.pickKey_delete_ne

variable [Fintype Shard] [Fintype Replica] {s s' : Draining Shard Replica}

theorem Honest.next {l : Label Shard Replica} (h : Honest S s.toMovers s.history)
    (hst : s.next S l = some s') : Honest S s'.toMovers s'.history := by
  have hstart : ∀ r, Honest S (s.toMovers.start r) s.history := by
    intro r
    refine ⟨?_, fun q k v hl => h.got q k v (Movers.eq_of_start (by simp) hl), ?_, ?_⟩
    · rw [Movers.toCalls_start]; exact h.log
    · rw [Movers.toCalls_start]; exact h.late
    · rw [Movers.toCalls_start]; exact h.serves
  cases l with
  | issue e req =>
    simp only [Draining.next] at hst
    split_ifs at hst
    cases hst
    exact h
  | serve i applied =>
    obtain ⟨t, -, rfl⟩ := Option.map_eq_some_iff.1 hst
    cases applied with
    | false => exact h
    | true =>
      refine (h.mono (List.subset_append_left _ _)).append fun k v hpick => ?_
      obtain ⟨isRedistribution, hreq⟩ := Request.eq_put_of_pickKey hpick
      refine ⟨s.resumed t.2, t.2, isRedistribution, ?_⟩
      rw [← hreq]
      exact List.mem_append_right _ List.mem_cons_self
  | pause x answered =>
    simp only [Draining.next] at hst
    split_ifs at hst
    cases hst
    exact h
  | poll r answered =>
    simp only [Draining.next] at hst
    split_ifs at hst
    cases hst
    exact hstart r
  | start r =>
    simp only [Draining.next] at hst
    split_ifs at hst
    cases hst
    exact hstart r
  | move l =>
    obtain ⟨m, hm, rfl⟩ := Option.map_eq_some_iff.1 hst
    exact (h.move hm).mono (List.subset_append_left _ _)
  | reload r fresh =>
    simp only [Draining.next] at hst
    split_ifs at hst <;> cases hst <;> exact ⟨h.log, h.got, h.late, h.serves⟩
  | resume x =>
    simp only [Draining.next] at hst
    split_ifs at hst
    cases hst
    exact h
  | reconcile => cases hst; exact h
  | advance =>
    simp only [Draining.next, Draining.advance] at hst
    split at hst <;> (try split_ifs at hst) <;> cases hst <;> exact h

/-- **No value is invented.**  During a scale operation with client writes, with replicas that lag
behind, restore and restart, and with calls of the goroutines that fail or take effect late: in
every reachable state, whatever `Get` answers on any replica for a key, and whatever is committed
for it at any shard, has been put for that very key by a client whose write has been committed. -/
theorem put_of_get (S : Plan Shard Replica)
    (h : (machine S).Reached (opened S.toScale) s) :
    (∀ r k v, (s.node r).get k = .ok v → PutBy s.history k v) ∧
      ∀ x k v, (s.committed x).lookup k = some v → PutBy s.history k v := by
  have hinv := h.invariant (I := fun s => Honest S s.toMovers s.history)
    ⟨fun _ _ he => absurd he List.not_mem_nil, fun _ _ _ hl => (by cases hl),
      fun _ hp => absurd hp List.not_mem_nil, fun r => ⟨0, Replicas.serves_opened S.home r⟩⟩
    fun _ _ _ hi _ hst => hi.next hst
  refine ⟨fun r k v hget => hinv.get hget, fun x k v hlookup => ?_⟩
  obtain ⟨e, he, hpick⟩ := exists_set_of_lookup hlookup
  exact hinv.log x e he k v hpick

/-- A `Put` of a goroutine that takes effect late carries the value that a client has put. -/
theorem put_of_get_late :
    ∃ s, (machine Plan.moveAll).Reached (opened Plan.moveAll.toScale) s ∧
      (s.node true).get "a" = .ok "1" ∧ PutBy s.history "a" "1" := by
  have hs : (machine Plan.moveAll).Reached (opened Plan.moveAll.toScale) _ := .of_run
    [.issue false (.put "a" "1" false), .serve 0 true, .move (.apply false), .pause false true,
      .pause true true, .advance, .poll false true, .move (.read false "a"),
      .move (.send false .lost), .move (.settle 0), .move (.apply true)] rfl
  have hget := (put_of_get Plan.moveAll hs).1 true "a" "1" rfl
  exact ⟨_, hs, rfl, hget⟩

end Draining

end ShardedKvs
