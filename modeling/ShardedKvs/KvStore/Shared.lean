import ShardedKvs.KvStore.Basic

/-!
# The store that requests read and the store that Raft writes

`KVStore.Get` and `KVStore.Keys` read through the pointer in `KVStore`; `KVFsm.Apply` writes through
the pointer in `KVFsm`.  After `Open` the two pointers are equal, and `Apply` and `Snapshot` keep
them so.  `Restore` does not: it moves the pointer of the state machine and leaves the other one
behind.

* `Node.Agrees` : requests see exactly the store of the state machine.
* `Node.agrees_of_no_restore` : **as long as no snapshot is restored, they do**, over callback
  sequences of any length, and no callback panics.
* `Node.get_of_restore` : from the first `Restore` on, every request is answered from the contents
  the store had at that moment, whatever is applied later.
* `Node.not_agrees_after_restore` : a key written after a `Restore` is not found.
-/

namespace ShardedKvs

namespace Node

/-- Requests see exactly the store of the state machine. -/
structure Agrees (n : Node) : Prop where
  get_ok : ∀ k v, n.get k = .ok v ↔ n.fsmStore.lookup k = some v
  get_error : ∀ k, n.get k = .error {} ↔ k ∉ n.fsmStore
  keys : n.keys = n.fsmStore.keys

/-- The callback restores a snapshot. -/
def Event.IsRestore : Event → Prop
  | .restore _ => True
  | _ => False

/-- Both structs hold the same pointer, to a map that is not nil. -/
def Shared (n : Node) : Prop :=
  n.kvStore.store = n.fsm.store ∧ ∃ r, n.heap.vars n.fsm.store = some r

/-- `KVStore` refers to a map `m` that the state machine does not refer to any more. -/
def Detached (m : Contents) (n : Node) : Prop :=
  n.heap.vars n.kvStore.store ≠ none ∧
    n.heap.vars n.kvStore.store ≠ n.heap.vars n.fsm.store ∧ n.heap.read n.kvStore.store = m

variable {n n' : Node} {m : Contents} {ev : Event}

theorem get_eq (n : Node) (k : String) :
    n.get k = match (n.heap.read n.kvStore.store).lookup k with
      | some v => .ok v
      | none => .error {} := rfl

theorem agrees_of_read_eq (h : n.heap.read n.kvStore.store = n.fsmStore) : n.Agrees := by
  refine ⟨fun k v => ?_, fun k => ?_, ?_⟩
  · rw [get_eq, h]
    cases n.fsmStore.lookup k <;> simp
  · rw [get_eq, h, ← Finmap.lookup_eq_none]
    cases n.fsmStore.lookup k <;> simp
  · rw [Node.keys, h]

theorem Shared.agrees (h : n.Shared) : n.Agrees :=
  agrees_of_read_eq (by rw [h.1]; rfl)

theorem shared_opened : opened.Shared := ⟨rfl, 0, rfl⟩

/-- A callback other than `Restore` keeps the pointers equal and does not panic. -/
theorem Shared.step (h : n.Shared) (hev : ¬ ev.IsRestore) :
    ∃ n', n.step ev = some n' ∧ n'.Shared := by
  obtain ⟨hptr, r, hr⟩ := h
  cases ev with
  | apply e =>
    obtain ⟨n', hn'⟩ := exists_apply hr e
    have ha := applied_of_apply hn'
    refine ⟨n', hn', ?_, r, ?_⟩
    · rw [ha.kvStore, ha.fsm_store, hptr]
    · rw [ha.vars, ha.fsm_store, hr]
  | snapshot => exact ⟨n, rfl, hptr, r, hr⟩
  | restore snap => exact absurd trivial hev

theorem Shared.run (h : n.Shared) {es : List Event} (hes : ∀ ev ∈ es, ¬ ev.IsRestore) :
    ∃ n', machine.run n es = some n' ∧ n'.Shared := by
  induction es generalizing n with
  | nil => exact ⟨n, rfl, h⟩
  | cons ev es ih =>
    obtain ⟨n₁, h₁, hs₁⟩ := h.step (hes ev List.mem_cons_self)
    obtain ⟨n', h', hs'⟩ := ih hs₁ fun ev' hev' => hes ev' (List.mem_cons_of_mem _ hev')
    refine ⟨n', ?_, hs'⟩
    rw [Machine.run_cons]
    change (n.step ev).bind _ = _
    rw [h₁]; exact h'

/-- **As long as no snapshot is restored, requests read what Raft writes.**  Every sequence of
`Apply` and `Snapshot` callbacks after `Open` runs without a panic and ends in a state in which
`Get` and `Keys` see exactly the store of the state machine. -/
theorem agrees_of_no_restore (es : List Event) (hes : ∀ ev ∈ es, ¬ ev.IsRestore) :
    ∃ n, machine.run opened es = some n ∧ n.Agrees := by
  obtain ⟨n, hn, hs⟩ := shared_opened.run hes
  exact ⟨n, hn, hs.agrees⟩

theorem agrees_after_set_and_delete :
    (∀ ev ∈ [Event.apply (.set "a" "1"), .snapshot, .apply (.delete "a")], ¬ ev.IsRestore) ∧
      ∃ n, machine.run opened [.apply (.set "a" "1"), .snapshot, .apply (.delete "a")] = some n ∧
        n.Agrees := by
  have h : ∀ ev ∈ [Event.apply (.set "a" "1"), .snapshot, .apply (.delete "a")],
      ¬ ev.IsRestore := by
    simp [Event.IsRestore]
  exact ⟨h, agrees_of_no_restore _ h⟩

/-! ### After a restore -/

theorem detached_restore (h : n.Shared) (snap : KVFSMSnapshot) :
    (n.restore snap).Detached n.fsmStore := by
  obtain ⟨hptr, r, hr⟩ := h
  have hvar : (n.heap.alloc snap.unmarshalMap).vars n.kvStore.store = some r := by
    rw [Heap.vars_alloc_of_lt _ n.kvStore_lt, hptr, hr]
  refine ⟨?_, ?_, ?_⟩
  · change (n.heap.alloc snap.unmarshalMap).vars n.kvStore.store ≠ none
    rw [hvar]; simp
  · change (n.heap.alloc snap.unmarshalMap).vars n.kvStore.store ≠
      (n.heap.alloc snap.unmarshalMap).vars n.heap.nextVar
    cases hm : snap.unmarshalMap with
    | none => rw [hm] at hvar; rw [hvar]; simp [Heap.alloc]
    | some m => exact Heap.vars_alloc_ne m n.kvStore_lt
  · change (n.heap.alloc snap.unmarshalMap).read n.kvStore.store = _
    rw [Heap.read_alloc_of_lt _ n.kvStore_lt, hptr]; rfl

/-- Nothing that Raft delivers changes what a detached `KVStore` reads. -/
theorem Detached.step (h : n.Detached m) (hst : n.step ev = some n') : n'.Detached m := by
  obtain ⟨hnil, hne, hm⟩ := h
  cases ev with
  | apply e =>
    have ha := applied_of_apply hst
    unfold Detached
    rw [ha.vars, ha.kvStore, ha.fsm_store, ha.read_other _ hne]
    exact ⟨hnil, hne, hm⟩
  | snapshot => cases hst; exact ⟨hnil, hne, hm⟩
  | restore snap =>
    cases hst
    -- the new variable of the state machine is nil or refers to a fresh object
    have hvar := Heap.vars_alloc_of_lt snap.unmarshalMap n.kvStore_lt
    refine ⟨?_, ?_, ?_⟩
    · change (n.heap.alloc snap.unmarshalMap).vars n.kvStore.store ≠ none
      rw [hvar]; exact hnil
    · change (n.heap.alloc snap.unmarshalMap).vars n.kvStore.store ≠
        (n.heap.alloc snap.unmarshalMap).vars n.heap.nextVar
      cases hs : snap.unmarshalMap with
      | none =>
        rw [hs] at hvar
        rw [hvar]
        simpa [Heap.alloc] using hnil
      | some m' => exact Heap.vars_alloc_ne m' n.kvStore_lt
    · change (n.heap.alloc snap.unmarshalMap).read n.kvStore.store = m
      rw [Heap.read_alloc_of_lt _ n.kvStore_lt, hm]

/-- **A restored process serves a frozen store.**  From the first `Restore` on, `Get` answers from
the contents that the store had at that moment, whatever Raft delivers later. -/
theorem get_of_restore {pre post : List Event} {snap : KVFSMSnapshot} {n₀ : Node}
    (hpre : ∀ ev ∈ pre, ¬ ev.IsRestore) (h₀ : machine.run opened pre = some n₀)
    (h : machine.run n₀ (.restore snap :: post) = some n) (k : String) : n.get k = n₀.get k := by
  obtain ⟨n₁, h₁, hs⟩ := shared_opened.run hpre
  rw [h₀] at h₁
  cases h₁
  have hrun : machine.run (n₀.restore snap) post = some n := h
  have hd : n.Detached n₀.fsmStore :=
    Machine.ReachedBy.invariant (Machine.Reached.of_run _ hrun) (detached_restore hs snap)
      fun _ _ _ hd _ hst => hd.step hst
  have hread : n₀.heap.read n₀.kvStore.store = n₀.fsmStore := by rw [hs.1]; rfl
  rw [get_eq, get_eq, hd.2.2, hread]

/-- **A key written after a `Restore` is not found**: the state machine of a replica that restores
a snapshot of `a` and then applies a `SET` of `b` holds `b`, but `Get` reports `KeyNotFound`. -/
theorem not_agrees_after_restore :
    ¬ ∀ (es : List Event) (n : Node), machine.run opened es = some n → n.Agrees := by
  intro h
  have ha := h [.apply (.set "a" "1"), .restore ⟨(∅ : Contents).insert "a" "1", true⟩,
    .apply (.set "b" "2")] _ rfl
  exact (ha.get_error "b").1 rfl (by decide)

end Node

end ShardedKvs
