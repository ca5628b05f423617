import ShardedKvs.Heap.Basic
import ShardedKvs.Log.Latest
import ShardedKvs.Machine.Basic

/-!
# The replicated key-value store of one process

The package `kvstore` gives every replica process two structs: `KVStore`, which serves requests,
and `KVFsm`, which Raft drives through `Apply`, `Snapshot` and `Restore`.  They are separate values
that share only the pointer to the map that `KVStore.Open` hands to `NewKVFsm`; each has its own
`writesEnabled` flag.  `Node` is one process with both structs and the heap their pointers point
into.

* `KVFSMLogEntry`, `KVFSMSnapshot` : the messages of `fsm.proto`.
* `Node.opened` : the process after `NewKVStore` and `Open`.
* `Node.apply`, `Node.snapshot`, `FsmSnapshot.persist`, `Node.restore` : the callbacks of the state
  machine.  `Node.apply` is `none` where Go panics (a write to a nil map).
* `Node.get`, `Node.keys`, `Node.getWritesEnabled` : what requests read.
* `Node.machine` : any sequence of callbacks.

`Marshal` and `Unmarshal` are represented by the message they carry; the one thing `Unmarshal`
does not give back is an empty map, which comes back as nil (`KVFSMSnapshot.unmarshalMap`).
-/

namespace ShardedKvs

/-- The contents of a `map[string]string`. -/
abbrev Contents := Finmap fun _ : String => String

/-! ### Log entries -/

/-- The operation codes of a log entry. -/
def SET : ℤ := 0

@[inherit_doc SET] def DELETE : ℤ := 1

@[inherit_doc SET] def TOGGLE : ℤ := 2

/-- `protos.KVFSMLogEntry`. -/
structure KVFSMLogEntry where
  operation : ℤ
  key : Option String
  value : Option String
  writesEnabled : Option Bool
  deriving DecidableEq

namespace KVFSMLogEntry

/-- The generated getter: an unset field reads as its zero value. -/
def getKey (e : KVFSMLogEntry) : String := e.key.getD ""

@[inherit_doc getKey] def getValue (e : KVFSMLogEntry) : String := e.value.getD ""

@[inherit_doc getKey] def getWritesEnabled (e : KVFSMLogEntry) : Bool := e.writesEnabled.getD false

/-- The entry that `KVStore.Set` appends. -/
def set (k v : String) : KVFSMLogEntry := ⟨SET, some k, some v, none⟩

/-- The entry that `KVStore.Delete` appends. -/
def delete (k : String) : KVFSMLogEntry := ⟨DELETE, some k, none, none⟩

/-- The entry that `KVStore.SetWritesEnabled` appends. -/
def toggle (b : Bool) : KVFSMLogEntry := ⟨TOGGLE, none, none, some b⟩

/-- What the entry does to the key `k`: nothing, remove it, or set it. -/
def pickKey (k : String) (e : KVFSMLogEntry) : Option (Option String) :=
  if e.operation = SET then
    if k = e.getKey then some (some e.getValue) else none
  else if e.operation = DELETE then
    if k = e.getKey then some none else none
  else none

/-- What the entry does to the write flag. -/
def pickFlag (e : KVFSMLogEntry) : Option Bool :=
  if e.operation = TOGGLE then some e.getWritesEnabled else none

/-- What the entry does to a store. -/
def applyTo (m : Contents) (e : KVFSMLogEntry) : Contents :=
  if e.operation = SET then m.insert e.getKey e.getValue
  else if e.operation = DELETE then m.erase e.getKey
  else m

theorem lookup_applyTo (m : Contents) (e : KVFSMLogEntry) (k : String) :
    (e.applyTo m).lookup k = (e.pickKey k).getD (m.lookup k) := by
  unfold applyTo pickKey
  split_ifs <;> simp_all [lookup_insert_eq, lookup_erase_eq]

@[simp] theorem pickKey_set (k k' v : String) :
    (set k' v).pickKey k = if k = k' then some (some v) else none := rfl

@[simp] theorem pickKey_delete (k k' : String) :
    (delete k').pickKey k = if k = k' then some none else none := rfl

@[simp] theorem pickFlag_toggle (b : Bool) : (toggle b).pickFlag = some b := rfl

@[simp] theorem pickFlag_set (k v : String) : (set k v).pickFlag = none := rfl

@[simp] theorem pickFlag_delete (k : String) : (delete k).pickFlag = none := rfl

end KVFSMLogEntry

/-- The store that a log builds from the empty store. -/
def storeOf (log : List KVFSMLogEntry) : Contents := log.foldl KVFSMLogEntry.applyTo ∅

theorem lookup_foldl_applyTo (m : Contents) (log : List KVFSMLogEntry) (k : String) :
    (log.foldl KVFSMLogEntry.applyTo m).lookup k =
      latest (KVFSMLogEntry.pickKey k) (m.lookup k) log := by
  induction log generalizing m with
  | nil => rfl
  | cons e log ih =>
    rw [List.foldl_cons, ih, KVFSMLogEntry.lookup_applyTo, latest_cons]

theorem lookup_storeOf (log : List KVFSMLogEntry) (k : String) :
    (storeOf log).lookup k = latest (KVFSMLogEntry.pickKey k) none log := by
  unfold storeOf; rw [lookup_foldl_applyTo, Finmap.lookup_empty]

/-- The committed write flag of a log: the last toggle, initially `true`. -/
def flagOf (log : List KVFSMLogEntry) : Bool := latest KVFSMLogEntry.pickFlag true log

/-! ### The two structs and the process -/

/-- The fields of `kvstore.KVStore` that its requests read. -/
structure KVStore where
  store : ℕ
  writesEnabled : Bool

/-- `kvstore.KVFsm` (the same struct type, with the callbacks of the state machine). -/
structure KVFsm where
  store : ℕ
  writesEnabled : Bool

/-- `protos.KVFSMSnapshot`: what `Persist` writes. -/
structure KVFSMSnapshot where
  kvStore : Contents
  writesEnabled : Bool

/-- The map field after `Unmarshal`: a message without map entries leaves it nil. -/
def KVFSMSnapshot.unmarshalMap (snap : KVFSMSnapshot) : Option Contents :=
  if snap.kvStore = ∅ then none else some snap.kvStore

/-- `kvstore.fsmSnapshot`: a *reference* to the live map, and a copy of the flag. -/
structure FsmSnapshot where
  store : Option ℕ
  writesEnabled : Bool

theorem KVFSMSnapshot.getD_unmarshalMap (snap : KVFSMSnapshot) :
    snap.unmarshalMap.getD ∅ = snap.kvStore := by
  unfold unmarshalMap
  split_ifs with h
  · exact h.symm
  · rfl

/-- `fsmSnapshot.Persist`, reading the whole map at one moment. -/
def FsmSnapshot.persist (fs : FsmSnapshot) (h : Heap String String) : KVFSMSnapshot :=
  ⟨h.contents fs.store, fs.writesEnabled⟩

/-- The error of `KVStore.Get`. -/
structure KeyNotFound where

/-- `KeyNotFound.Error`. -/
def KeyNotFound.error (_ : KeyNotFound) : String := "Key not found"

/-- A replica process: its two structs and the heap that their pointers point into. -/
structure Node where
  heap : Heap String String
  kvStore : KVStore
  fsm : KVFsm
  kvStore_lt : kvStore.store < heap.nextVar
  fsm_lt : fsm.store < heap.nextVar

/-- `NewKVStore`: a fresh variable that refers to a fresh empty map, writes not enabled. -/
def newKVStore : Heap String String × KVStore :=
  ((Heap.empty : Heap String String).alloc (some ∅), ⟨0, false⟩)

/-- `NewKVFsm`: the state machine shares the pointer; its own flag starts enabled. -/
def newKVFsm (store : ℕ) : KVFsm := ⟨store, true⟩

namespace Node

/-- The process after `NewKVStore` and `KVStore.Open`. -/
def opened : Node where
  heap := newKVStore.1
  kvStore := newKVStore.2
  fsm := newKVFsm newKVStore.2.store
  kvStore_lt := by decide
  fsm_lt := by decide

/-- The store of the state machine. -/
def fsmStore (n : Node) : Contents := n.heap.read n.fsm.store

/-- `KVStore.Get`. -/
def get (n : Node) (k : String) : Except KeyNotFound String :=
  match (n.heap.read n.kvStore.store).lookup k with
  | some v => .ok v
  | none => .error {}

/-- `KVStore.Keys`. -/
def keys (n : Node) : Finset String := (n.heap.read n.kvStore.store).keys

/-- `KVStore.GetWritesEnabled`. -/
def getWritesEnabled (n : Node) : Bool := n.kvStore.writesEnabled

/-- `KVStore.SetWritesEnabled`: the entry it hands to Raft, or nothing when the flag of `KVStore`
already has the wanted value.  It does not assign the flag. -/
def setWritesEnabled (n : Node) (b : Bool) : Option KVFSMLogEntry :=
  if n.kvStore.writesEnabled = b then none else some (.toggle b)

/-- `KVFsm.Apply`; `none` is the panic of a write to a nil map. -/
def apply (n : Node) (e : KVFSMLogEntry) : Option Node :=
  if e.operation = SET then
    match hset : n.heap.set n.fsm.store e.getKey e.getValue with
    | none => none
    | some h =>
      some { n with
        heap := h
        kvStore_lt := by rw [Heap.nextVar_set hset]; exact n.kvStore_lt
        fsm_lt := by rw [Heap.nextVar_set hset]; exact n.fsm_lt }
  else if e.operation = DELETE then
    some { n with
      heap := n.heap.del n.fsm.store e.getKey
      kvStore_lt := by rw [Heap.nextVar_del]; exact n.kvStore_lt
      fsm_lt := by rw [Heap.nextVar_del]; exact n.fsm_lt }
  else if e.operation = TOGGLE then
    some { n with fsm := ⟨n.fsm.store, e.getWritesEnabled⟩, fsm_lt := n.fsm_lt }
  else some n

/-- `KVFsm.Snapshot`: the snapshot keeps a reference to the live map. -/
def snapshot (n : Node) : FsmSnapshot := ⟨n.heap.vars n.fsm.store, n.fsm.writesEnabled⟩

/-- The assignment `f.store = &m` for a new variable: the pointer in `KVStore` and both flags stay
as they are. -/
def pointAt (n : Node) (m : Option Contents) : Node where
  heap := n.heap.alloc m
  kvStore := n.kvStore
  fsm := ⟨n.heap.nextVar, n.fsm.writesEnabled⟩
  kvStore_lt := by rw [Heap.nextVar_alloc]; exact Nat.lt_succ_of_lt n.kvStore_lt
  fsm_lt := by simp

/-- `KVFsm.Restore`: the state machine's pointer is moved to the map of the decoded message. -/
def restore (n : Node) (snap : KVFSMSnapshot) : Node := n.pointAt snap.unmarshalMap

/-- The callbacks Raft delivers to the state machine. -/
inductive Event where
  | apply (e : KVFSMLogEntry)
  | snapshot
  | restore (snap : KVFSMSnapshot)

/-- One callback. -/
def step (n : Node) : Event → Option Node
  | .apply e => n.apply e
  | .snapshot => some n
  | .restore snap => some (n.restore snap)

/-- The process under any sequence of callbacks. -/
def machine : Machine Node Event := ⟨step⟩

/-- Apply the entries of a log in order. -/
def applyAll (n : Node) (log : List KVFSMLogEntry) : Option Node :=
  machine.run n (log.map Event.apply)

/-! ### What one `Apply` does -/

/-- Everything `Apply` of `e` changes and keeps: the variables and both pointers stay; the flag of
the state machine follows the entry, that of `KVStore` does not; a variable that refers to the
state machine's map sees the entry applied, every other variable sees what it saw. -/
structure Applied (n : Node) (e : KVFSMLogEntry) (n' : Node) : Prop where
  vars : n'.heap.vars = n.heap.vars
  kvStore : n'.kvStore = n.kvStore
  fsm_store : n'.fsm.store = n.fsm.store
  flag : n'.fsm.writesEnabled = e.pickFlag.getD n.fsm.writesEnabled
  read : ∀ q, n.heap.vars q = n.heap.vars n.fsm.store →
    n'.heap.read q = e.applyTo (n.heap.read q)
  read_other : ∀ q, n.heap.vars q ≠ n.heap.vars n.fsm.store → n'.heap.read q = n.heap.read q

variable {n n' : Node} {e : KVFSMLogEntry}

theorem applied_of_apply (h : n.apply e = some n') : n.Applied e n' := by
  unfold apply at h
  split_ifs at h with hs hd ht
  · -- `SET`
    have hflag : e.pickFlag = none := by simp [KVFSMLogEntry.pickFlag, hs, SET, TOGGLE]
    split at h
    · cases h
    · rename_i heap hset
      cases h
      refine ⟨Heap.vars_set hset, rfl, rfl, by rw [hflag]; rfl, fun q hq => ?_, fun q hq => ?_⟩
      · rw [Heap.read_set hset hq]; simp [KVFSMLogEntry.applyTo, hs]
      · exact Heap.read_set_of_ne hset hq
  · -- `DELETE`
    have hflag : e.pickFlag = none := by simp [KVFSMLogEntry.pickFlag, hd, DELETE, TOGGLE]
    cases h
    refine ⟨Heap.vars_del _, rfl, rfl, by rw [hflag]; rfl, fun q hq => ?_, fun q hq => ?_⟩
    · change Heap.read (Heap.del _ _ _) q = _
      rw [Heap.read_del _ hq, KVFSMLogEntry.applyTo, if_neg hs, if_pos hd]
    · exact Heap.read_del_of_ne _ hq
  · -- `TOGGLE`
    cases h
    refine ⟨rfl, rfl, rfl, by simp [KVFSMLogEntry.pickFlag, ht], fun q _ => ?_, fun q _ => rfl⟩
    simp [KVFSMLogEntry.applyTo, hs, hd]
  · cases h
    refine ⟨rfl, rfl, rfl, by simp [KVFSMLogEntry.pickFlag, ht], fun q _ => ?_, fun q _ => rfl⟩
    simp [KVFSMLogEntry.applyTo, hs, hd]

/-- `Apply` panics only on a nil map. -/
theorem exists_apply {r : ℕ} (h : n.heap.vars n.fsm.store = some r) (e : KVFSMLogEntry) :
    ∃ n', n.apply e = some n' := by
  unfold apply
  split_ifs with hs
  · obtain ⟨heap, hset⟩ := Heap.exists_set h e.getKey e.getValue
    split
    · rename_i hnone; rw [hset] at hnone; cases hnone
    · exact ⟨_, rfl⟩
  all_goals exact ⟨_, rfl⟩

theorem Applied.fsmStore (h : n.Applied e n') : n'.fsmStore = e.applyTo n.fsmStore := by
  unfold Node.fsmStore
  rw [h.fsm_store, h.read _ rfl]

theorem fsmStore_pointAt (n : Node) (m : Option Contents) : (n.pointAt m).fsmStore = m.getD ∅ :=
  Heap.read_alloc m

theorem fsmStore_restore (n : Node) (snap : KVFSMSnapshot) :
    (n.restore snap).fsmStore = snap.kvStore := by
  rw [restore, fsmStore_pointAt, snap.getD_unmarshalMap]

/-- **Applying a log** to a state machine whose map is not nil never panics, keeps every variable
and both pointers, and folds the entries into the store and the flag. -/
theorem exists_applyAll {r : ℕ} (h : n.heap.vars n.fsm.store = some r) (log : List KVFSMLogEntry) :
    ∃ n', n.applyAll log = some n' ∧ n'.heap.vars = n.heap.vars ∧ n'.kvStore = n.kvStore ∧
      n'.fsm.store = n.fsm.store ∧ n'.fsmStore = log.foldl KVFSMLogEntry.applyTo n.fsmStore ∧
      n'.fsm.writesEnabled = latest KVFSMLogEntry.pickFlag n.fsm.writesEnabled log := by
  induction log generalizing n with
  | nil => exact ⟨n, rfl, rfl, rfl, rfl, rfl, rfl⟩
  | cons e log ih =>
    obtain ⟨n₁, h₁⟩ := exists_apply h e
    have ha := applied_of_apply h₁
    obtain ⟨n', hrun, hvars, hkv, hfsm, hstore, hflag⟩ :=
      ih (n := n₁) (by rw [ha.vars, ha.fsm_store]; exact h)
    refine ⟨n', ?_, hvars.trans ha.vars, hkv.trans ha.kvStore, hfsm.trans ha.fsm_store, ?_, ?_⟩
    · change (n.apply e).bind _ = _
      rw [h₁]; exact hrun
    · rw [hstore, ha.fsmStore]; rfl
    · rw [hflag, ha.flag]; rfl

/-- Whenever a log is applied without a panic, its entries are folded into the store. -/
theorem fsmStore_applyAll {log : List KVFSMLogEntry} (h : n.applyAll log = some n') :
    n'.fsmStore = log.foldl KVFSMLogEntry.applyTo n.fsmStore := by
  induction log generalizing n with
  | nil => cases h; rfl
  | cons e log ih =>
    obtain ⟨n₁, h₁, h₂⟩ := Option.bind_eq_some_iff.1 h
    rw [ih h₂, (applied_of_apply h₁).fsmStore]; rfl

end Node

end ShardedKvs
