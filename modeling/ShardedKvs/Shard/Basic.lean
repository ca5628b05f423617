import ShardedKvs.KvStore.Basic

/-!
# One shard: a Raft group and its request handlers

A shard is a group of replica processes with one committed log.  A write enters through the
`shardRpcServer` of any replica.  There `KVStore.Set` (or `Delete`) first asks Raft whether this
replica is the leader and then calls `raft.Apply`; when either says that it is not, the request is
forwarded to the `replicaRpcServer` of the leader, which has a check of its own.  The checks and the
append of one request are separate steps, so anything may happen between them.

* `Group` : the state of a shard, with the requests that are being served.
* `Group.Label`, `Group.next` : one step of one request, of a pause or resume call, or of Raft.
* `Group.machine` : every interleaving of them.
* `Group.FlagUnset.step` : what a step can do, on replicas whose `KVStore` has its flag unset; no
  step sets it (`Group.FlagUnset.next`).

Raft itself is not modelled below its interface: any replica may gain or lose leadership at any
time, a replica's idea of the leader may be wrong, and an `Apply` may fail.  An entry whose `Apply`
has failed may already be in the log of some replicas: a later leader then commits it at any time,
or overwrites it.  Likewise the call of a follower to the leader may fail while the leader goes on
with the request.
-/

namespace ShardedKvs

/-- How a call ends: with its effect, without it, or with an error although it takes effect. -/
inductive Outcome where
  | ok
  | failed
  | lost
  deriving DecidableEq

/-- The call took effect. -/
def Outcome.applied : Outcome → Bool
  | .failed => false
  | _ => true

/-- The requests that write to a shard: `InternalPutRequest` and `DeleteRequest`. -/
inductive Request where
  | put (key value : String) (isRedistribution : Bool)
  | delete (key : String)
  deriving DecidableEq

namespace Request

/-- The request comes from a client.  Redistribution sends only `Put`s that say so, and the
redistribution loop deletes without a request. -/
def isClient : Request → Bool
  | .put _ _ isRedistribution => !isRedistribution
  | .delete _ => true

def key : Request → String
  | .put k _ _ => k
  | .delete k => k

/-- What the key holds after the request. -/
def result : Request → Option String
  | .put _ v _ => some v
  | .delete _ => none

/-- The log entry that serving the request appends. -/
def entry : Request → KVFSMLogEntry
  | .put k v _ => .set k v
  | .delete k => .delete k

end Request

/-- The errors that the handlers return. -/
inductive RpcError where
  /-- `raft.ErrNotLeader`. -/
  | notLeader
  | noLeader
  /-- `ErrWritesDisabled`. -/
  | writesDisabled
  /-- Another error of `raft.Apply`. -/
  | apply
  /-- The call to the leader failed. -/
  | rpc
  deriving DecidableEq

namespace RpcError

/-- The texts of the errors that the handlers make themselves. -/
def error : RpcError → Option String
  | .noLeader => some "no leader found"
  | .writesDisabled => some "Writes disabled. Please try again later."
  | _ => none

/-- The error says that the request was not served, and not only that its end is unknown. -/
def refuses : RpcError → Bool
  | .apply => false
  | .rpc => false
  | _ => true

end RpcError

/-- Where an entry of the log comes from. -/
inductive Origin where
  | client
  | redistribution
  | toggle
  deriving DecidableEq

/-- An entry with where it comes from. -/
structure Logged where
  origin : Origin
  entry : KVFSMLogEntry
  /-- The request that it serves. -/
  request : Option ℕ
  deriving DecidableEq

/-- How far a request has got. -/
inductive Point (R : Type*) where
  /-- In `shardRpcServer` of a replica, before the leader check of `Set` or `Delete`. -/
  | shardRpc (r : R)
  /-- In `shardRpcServer`, past the leader check; `raft.Apply` has not returned. -/
  | shardAppend (r : R)
  /-- Forwarded to the `replicaRpcServer` of a replica, before its first check. -/
  | replicaRpc (r : R)
  /-- In `replicaRpcServer`, before the leader check of `Set` or `Delete`. -/
  | set (r : R)
  /-- In `replicaRpcServer`, past the leader check; `raft.Apply` has not returned. -/
  | append (r : R)
  deriving DecidableEq

namespace Point

variable {R : Type*}

/-- The request has been forwarded to the leader. -/
def forwarded : Point R → Bool
  | .shardRpc _ => false
  | .shardAppend _ => false
  | _ => true

/-- The next step of the request is `raft.Apply`. -/
def appends : Point R → Bool
  | .shardAppend _ => true
  | .append _ => true
  | _ => false

end Point

/-- A request that is being served. -/
structure Task (R : Type*) where
  /-- The requests are numbered as they arrive. -/
  id : ℕ
  req : Request
  point : Point R
  /-- The call of the follower has failed and the sender has its answer, while the leader is still
  serving the request. -/
  cut : Bool
  deriving DecidableEq

/-- A request that has been answered. -/
structure Response where
  id : ℕ
  req : Request
  res : Except RpcError Unit
  deriving DecidableEq

/-- What a pause or resume call answered, with the committed flag at that moment. -/
inductive Ack where
  | paused (committed : Bool)
  | resumed (committed : Bool)
  deriving DecidableEq

/-- A shard with replicas `R`. -/
structure Group (R : Type*) where
  /-- The committed log. -/
  log : List Logged
  /-- The entries whose `Apply` has failed and that may still be committed. -/
  late : List Logged
  /-- `raft.State() == raft.Leader`, on each replica. -/
  isLeader : R → Bool
  node : R → Node
  /-- The number of committed entries that each replica has applied. -/
  applied : R → ℕ
  /-- The number of requests that have arrived. -/
  arrived : ℕ
  /-- The requests that are being served. -/
  tasks : List (Task R)
  replies : List Response
  /-- The length of the log when `PauseWrites` last answered, unless a `ResumeWrites` has started
  since. -/
  pausedAt : Option ℕ
  /-- The pause and resume calls that have answered yes. -/
  acks : List Ack

namespace Group

variable {R : Type*}

/-- The steps of a shard. -/
inductive Label (R : Type*) where
  /-- A request reaches the `shardRpcServer` of `r`. -/
  | arrive (r : R) (req : Request)
  /-- The `i`-th request passes or fails its next check; `hint` is the leader that the replica
  knows of. -/
  | check (i : ℕ) (hint : Option R)
  /-- `raft.Apply` of the `i`-th request. -/
  | append (i : ℕ) (out : Outcome)
  /-- `raft.Apply` of the `i`-th request answers `ErrNotLeader`. -/
  | notLeader (i : ℕ) (hint : Option R)
  /-- The follower's call to the leader for the `i`-th request fails. -/
  | cut (i : ℕ)
  /-- The `i`-th late entry is committed, or overwritten by a later leader. -/
  | settle (i : ℕ) (committed : Bool)
  /-- The redistribution loop on `r` deletes a key. -/
  | purge (r : R) (key : String) (out : Outcome)
  /-- `replicaRpcServer.PauseWrites` on `r`, whose mounted config has new shards or not. -/
  | pause (r : R) (newShards : Bool) (out : Outcome)
  /-- A `ResumeWrites` call starts. -/
  | resume
  /-- `SetWritesEnabled(true)` at the end of `replicaRpcServer.ResumeWrites` on `r`. -/
  | enable (r : R) (out : Outcome)
  /-- `r` gains or loses leadership. -/
  | lead (r : R) (b : Bool)
  /-- The state machine of `r` applies the next committed entry. -/
  | apply (r : R)

/-- The value of the last toggle in the committed log. -/
def committedFlag (s : Group R) : Bool := flagOf (s.log.map Logged.entry)

/-- Request `i` goes on to another point. -/
def goto (s : Group R) (i : ℕ) (t : Task R) (p : Point R) : Group R :=
  { s with tasks := s.tasks.set i { t with point := p } }

/-- Request `i` is answered, unless its sender has an answer already. -/
def reply (s : Group R) (i : ℕ) (t : Task R) (res : Except RpcError Unit) : Group R :=
  { s with
    tasks := s.tasks.eraseIdx i
    replies := if t.cut then s.replies else s.replies ++ [⟨t.id, t.req, res⟩] }

/-- Request `i` is answered with the error of the call to the leader, which goes on with it. -/
def cutOff (s : Group R) (i : ℕ) (t : Task R) : Group R :=
  { s with
    tasks := s.tasks.set i { t with cut := true }
    replies := s.replies ++ [⟨t.id, t.req, .error .rpc⟩] }

/-- `raft.Apply` of an entry: it is committed, or not appended at all, or it is left in the log of
some replica. -/
def commit (s : Group R) (out : Outcome) (e : Logged) : Group R :=
  match out with
  | .ok => { s with log := s.log ++ [e] }
  | .failed => s
  | .lost => { s with late := s.late ++ [e] }

/-- The origin of the entry of a request. -/
def originOf (req : Request) : Origin := if req.isClient then .client else .redistribution

/-- The entry that serving a request appends. -/
def logged (id : ℕ) (req : Request) : Logged := ⟨originOf req, req.entry, some id⟩

/-- `shardRpcServer` forwards request `i` to the leader it knows of. -/
def forward (s : Group R) (i : ℕ) (t : Task R) : Option R → Group R
  | none => s.reply i t (.error .noLeader)
  | some leader => s.goto i t (.replicaRpc leader)

/-- The next check of request `i`. -/
def stepCheck (s : Group R) (i : ℕ) (hint : Option R) : Option (Group R) :=
  s.tasks[i]?.bind fun t =>
    match t.point with
    | .shardRpc r => some (if s.isLeader r then s.goto i t (.shardAppend r) else s.forward i t hint)
    | .replicaRpc r =>
      match t.req with
      | .put _ _ isRedistribution =>
        some (if !isRedistribution && !(s.node r).getWritesEnabled then
          s.reply i t (.error .writesDisabled) else s.goto i t (.set r))
      -- `replicaRpcServer.Delete` has no check of the flag
      | .delete _ => some (s.goto i t (.set r))
    | .set r =>
      some (if s.isLeader r then s.goto i t (.append r) else s.reply i t (.error .notLeader))
    | _ => none

/-- `raft.Apply` of request `i` returns: its entry is committed, or Raft has given it up. -/
def stepAppend (s : Group R) (i : ℕ) (out : Outcome) : Option (Group R) :=
  s.tasks[i]?.bind fun t =>
    if t.point.appends then
      some ((s.reply i t (if out = .ok then .ok () else .error .apply)).commit out
        (logged t.id t.req))
    else none

/-- `raft.Apply` of request `i` answers `ErrNotLeader`: `shardRpcServer` then forwards the request,
`replicaRpcServer` returns the error. -/
def stepNotLeader (s : Group R) (i : ℕ) (hint : Option R) : Option (Group R) :=
  s.tasks[i]?.bind fun t =>
    match t.point with
    | .shardAppend r => if s.isLeader r then none else some (s.forward i t hint)
    | .append r => if s.isLeader r then none else some (s.reply i t (.error .notLeader))
    | _ => none

/-- The call of the follower that has forwarded request `i` fails. -/
def stepCut (s : Group R) (i : ℕ) : Option (Group R) :=
  s.tasks[i]?.bind fun t =>
    if t.point.forwarded && !t.cut then some (s.cutOff i t) else none

/-- What becomes of a late entry. -/
def stepSettle (s : Group R) (i : ℕ) (committed : Bool) : Option (Group R) :=
  s.late[i]?.map fun e =>
    { s with
      late := s.late.eraseIdx i
      log := if committed then s.log ++ [e] else s.log }

/-- The redistribution loop on `r` calls `kvStore.Delete`. -/
def stepPurge (s : Group R) (r : R) (key : String) (out : Outcome) : Option (Group R) :=
  if s.isLeader r then some (s.commit out ⟨.redistribution, .delete key, none⟩) else some s

/-- `SetWritesEnabled(b)` on `r`: whether it succeeds, and the state after it.  A call that finds
the flag of `KVStore` as wanted succeeds at once, on any replica; otherwise Raft refuses it on a
replica that is not the leader. -/
def setWritesEnabled (s : Group R) (r : R) (b : Bool) (out : Outcome) : Bool × Group R :=
  match (s.node r).setWritesEnabled b with
  | none => (true, s)
  | some e =>
    if s.isLeader r then (decide (out = .ok), s.commit out ⟨.toggle, e, none⟩) else (false, s)

/-- `PauseWrites` answers yes. -/
def ackPause (s : Group R) : Group R :=
  { s with pausedAt := some s.log.length, acks := s.acks ++ [.paused s.committedFlag] }

/-- `ResumeWrites` answers yes. -/
def ackResume (s : Group R) : Group R := { s with acks := s.acks ++ [.resumed s.committedFlag] }

/-- `replicaRpcServer.PauseWrites` on `r`. -/
def stepPause (s : Group R) (r : R) (newShards : Bool) (out : Outcome) : Option (Group R) :=
  if !newShards then some s
  else
    let (done, s') := s.setWritesEnabled r false out
    some (if done then s'.ackPause else s')

/-- The last step of `replicaRpcServer.ResumeWrites` on `r`. -/
def stepEnable (s : Group R) (r : R) (out : Outcome) : Option (Group R) :=
  let (done, s') := s.setWritesEnabled r true out
  some (if done then s'.ackResume else s')

section Steps

variable [DecidableEq R]

/-- The state machine of `r` has applied another entry. -/
def advance (s : Group R) (r : R) (n : Node) : Group R :=
  { s with
    node := Function.update s.node r n
    applied := Function.update s.applied r (s.applied r + 1) }

/-- The state machine of `r` applies the next committed entry. -/
def stepApply (s : Group R) (r : R) : Option (Group R) :=
  s.log[s.applied r]?.bind fun e => ((s.node r).apply e.entry).map (s.advance r)

/-- One step of a shard. -/
def next (s : Group R) : Label R → Option (Group R)
  | .arrive r req =>
    some { s with
      arrived := s.arrived + 1
      tasks := s.tasks ++ [⟨s.arrived, req, .shardRpc r, false⟩] }
  | .check i hint => s.stepCheck i hint
  | .append i out => s.stepAppend i out
  | .notLeader i hint => s.stepNotLeader i hint
  | .cut i => s.stepCut i
  | .settle i committed => s.stepSettle i committed
  | .purge r key out => s.stepPurge r key out
  | .pause r newShards out => s.stepPause r newShards out
  | .resume => some { s with pausedAt := none }
  | .enable r out => s.stepEnable r out
  | .lead r b => some { s with isLeader := Function.update s.isLeader r b }
  | .apply r => s.stepApply r

end Steps

/-- Every interleaving of the steps of a shard. -/
def machine (R : Type*) [DecidableEq R] : Machine (Group R) (Label R) := ⟨next⟩

/-- A shard whose replicas have just been opened. -/
def opened (R : Type*) : Group R where
  log := []
  late := []
  isLeader _ := false
  node _ := Node.opened
  applied _ := 0
  arrived := 0
  tasks := []
  replies := []
  pausedAt := none
  acks := []

/-! ### What a step can do -/

variable {s s' : Group R}

section Commit

variable (out : Outcome) (e : Logged)

@[simp] theorem node_commit : (s.commit out e).node = s.node := by cases out <;> rfl

@[simp] theorem tasks_commit : (s.commit out e).tasks = s.tasks := by cases out <;> rfl

@[simp] theorem replies_commit : (s.commit out e).replies = s.replies := by cases out <;> rfl

@[simp] theorem arrived_commit : (s.commit out e).arrived = s.arrived := by cases out <;> rfl

@[simp] theorem pausedAt_commit : (s.commit out e).pausedAt = s.pausedAt := by cases out <;> rfl

@[simp] theorem acks_commit : (s.commit out e).acks = s.acks := by cases out <;> rfl

end Commit

/-- The request passes its check and goes on to the given point. -/
inductive Passes (s : Group R) (t : Task R) : Point R → Prop
  | lead {r : R} : t.point = .shardRpc r → s.isLeader r = true → Passes s t (.shardAppend r)
  | forward {r leader : R} : t.point = .shardRpc r → s.isLeader r = false →
      Passes s t (.replicaRpc leader)
  | put {k v : String} {isRedistribution : Bool} {r : R} :
      t.req = .put k v isRedistribution → t.point = .replicaRpc r →
      (isRedistribution = true ∨ (s.node r).getWritesEnabled = true) → Passes s t (.set r)
  | delete {k : String} {r : R} : t.req = .delete k → t.point = .replicaRpc r →
      Passes s t (.set r)
  | set {r : R} : t.point = .set r → s.isLeader r = true → Passes s t (.append r)

theorem stepCheck_cases {i : ℕ} {hint : Option R} (h : s.stepCheck i hint = some s') :
    ∃ t, s.tasks[i]? = some t ∧ ((∃ p, s.Passes t p ∧ s' = s.goto i t p) ∨
      ∃ e : RpcError, e.refuses = true ∧ s' = s.reply i t (.error e)) := by
  obtain ⟨t, ht, h⟩ := Option.bind_eq_some_iff.1 h
  refine ⟨t, ht, ?_⟩
  split at h
  · rename_i r hp
    cases h
    split
    · rename_i hl
      exact .inl ⟨_, .lead hp hl, rfl⟩
    · rename_i hl
      cases hint with
      | none => exact .inr ⟨.noLeader, rfl, rfl⟩
      | some leader => exact .inl ⟨_, .forward hp (by simpa using hl), rfl⟩
  · rename_i r hp
    split at h <;> cases h
    · rename_i k v isRedistribution hreq
      split
      · exact .inr ⟨.writesDisabled, rfl, rfl⟩
      · rename_i hflag
        refine .inl ⟨_, .put hreq hp ?_, rfl⟩
        cases isRedistribution <;> simp_all
    · rename_i k hreq
      exact .inl ⟨_, .delete hreq hp, rfl⟩
  · rename_i r hp
    cases h
    split
    · rename_i hl
      exact .inl ⟨_, .set hp hl, rfl⟩
    · exact .inr ⟨.notLeader, rfl, rfl⟩
  · cases h

theorem stepAppend_cases {i : ℕ} {out : Outcome} (h : s.stepAppend i out = some s') :
    ∃ t, s.tasks[i]? = some t ∧ t.point.appends = true ∧
      s' = (s.reply i t (if out = .ok then .ok () else .error .apply)).commit out
        (logged t.id t.req) := by
  obtain ⟨t, ht, h⟩ := Option.bind_eq_some_iff.1 h
  split at h
  · rename_i hp
    cases h
    exact ⟨t, ht, hp, rfl⟩
  · cases h

theorem stepNotLeader_cases {i : ℕ} {hint : Option R} (h : s.stepNotLeader i hint = some s') :
    ∃ t, s.tasks[i]? = some t ∧ ((∃ leader, s' = s.goto i t (.replicaRpc leader)) ∨
      ∃ e : RpcError, e.refuses = true ∧ s' = s.reply i t (.error e)) := by
  obtain ⟨t, ht, h⟩ := Option.bind_eq_some_iff.1 h
  refine ⟨t, ht, ?_⟩
  split at h
  · split at h <;> cases h
    cases hint with
    | none => exact .inr ⟨.noLeader, rfl, rfl⟩
    | some leader => exact .inl ⟨leader, rfl⟩
  · split at h <;> cases h
    exact .inr ⟨.notLeader, rfl, rfl⟩
  · cases h

theorem stepCut_cases {i : ℕ} (h : s.stepCut i = some s') :
    ∃ t, s.tasks[i]? = some t ∧ t.cut = false ∧ s' = s.cutOff i t := by
  obtain ⟨t, ht, h⟩ := Option.bind_eq_some_iff.1 h
  split at h
  · rename_i hp
    cases h
    exact ⟨t, ht, by simp_all, rfl⟩
  · cases h

/-- When the flag of `KVStore` is not set, disabling writes succeeds at once and does nothing. -/
theorem setWritesEnabled_false {r : R} (h : (s.node r).kvStore.writesEnabled = false)
    (out : Outcome) : s.setWritesEnabled r false out = (true, s) := by
  simp only [setWritesEnabled, Node.setWritesEnabled, h, if_true]

/-- When the flag of `KVStore` is not set, enabling writes on the leader appends a toggle. -/
theorem setWritesEnabled_true {r : R} (h : (s.node r).kvStore.writesEnabled = false)
    (out : Outcome) :
    s.setWritesEnabled r true out =
      if s.isLeader r then (decide (out = .ok), s.commit out ⟨.toggle, .toggle true, none⟩)
      else (false, s) := by
  simp [setWritesEnabled, Node.setWritesEnabled, h]

/-- No replica's `KVStore` has its flag set. -/
def FlagUnset (s : Group R) : Prop := ∀ r, (s.node r).kvStore.writesEnabled = false

/-- A step of a shard, with the state after it. -/
inductive Step [DecidableEq R] (s : Group R) : Label R → Group R → Prop
  | arrive (r : R) (req : Request) :
      Step s (.arrive r req) { s with
        arrived := s.arrived + 1
        tasks := s.tasks ++ [⟨s.arrived, req, .shardRpc r, false⟩] }
  | pass {i : ℕ} {hint : Option R} {t : Task R} {p : Point R} :
      s.tasks[i]? = some t → s.Passes t p → Step s (.check i hint) (s.goto i t p)
  | forward {i : ℕ} {hint : Option R} {t : Task R} {leader : R} :
      s.tasks[i]? = some t → Step s (.notLeader i hint) (s.goto i t (.replicaRpc leader))
  | refuse {l : Label R} {i : ℕ} {t : Task R} {e : RpcError} :
      s.tasks[i]? = some t → e.refuses = true → Step s l (s.reply i t (.error e))
  | append {i : ℕ} {out : Outcome} {t : Task R} :
      s.tasks[i]? = some t → t.point.appends = true →
      Step s (.append i out) ((s.reply i t (if out = .ok then .ok () else .error .apply)).commit out
        (logged t.id t.req))
  | cut {i : ℕ} {t : Task R} : s.tasks[i]? = some t → t.cut = false →
      Step s (.cut i) (s.cutOff i t)
  | settle {i : ℕ} {committed : Bool} {e : Logged} : s.late[i]? = some e →
      Step s (.settle i committed) { s with
        late := s.late.eraseIdx i
        log := if committed then s.log ++ [e] else s.log }
  | purge {r : R} {key : String} {out : Outcome} :
      Step s (.purge r key out) (s.commit out ⟨.redistribution, .delete key, none⟩)
  | pause {r : R} {out : Outcome} : Step s (.pause r true out) s.ackPause
  | resume : Step s .resume { s with pausedAt := none }
  | enable {r : R} {out : Outcome} :
      Step s (.enable r out)
        (if out = .ok then (s.commit out ⟨.toggle, .toggle true, none⟩).ackResume
          else s.commit out ⟨.toggle, .toggle true, none⟩)
  | lead (r : R) (b : Bool) :
      Step s (.lead r b) { s with isLeader := Function.update s.isLeader r b }
  | apply {r : R} {e : Logged} {n : Node} :
      s.log[s.applied r]? = some e → (s.node r).apply e.entry = some n →
      Step s (.apply r) (s.advance r n)
  /-- A call that Raft refuses, or a pause for which the mounted config is too old. -/
  | stay (l : Label R) : Step s l s

variable [DecidableEq R] {l : Label R}

/-- What a step can do, on replicas whose `KVStore` has its flag unset. -/
theorem FlagUnset.step (h : s.FlagUnset) (hst : s.next l = some s') : s.Step l s' := by
  cases l with
  | arrive r req => cases hst; exact .arrive r req
  | check i hint =>
    obtain ⟨t, ht, ⟨p, hp, rfl⟩ | ⟨e, he, rfl⟩⟩ := stepCheck_cases hst
    · exact .pass ht hp
    · exact .refuse ht he
  | append i out => obtain ⟨t, ht, hp, rfl⟩ := stepAppend_cases hst; exact .append ht hp
  | notLeader i hint =>
    obtain ⟨t, ht, ⟨leader, rfl⟩ | ⟨e, he, rfl⟩⟩ := stepNotLeader_cases hst
    · exact .forward ht
    · exact .refuse ht he
  | cut i => obtain ⟨t, ht, hcut, rfl⟩ := stepCut_cases hst; exact .cut ht hcut
  | settle i committed =>
    obtain ⟨e, he, rfl⟩ := Option.map_eq_some_iff.1 hst
    exact .settle he
  | purge r key out =>
    simp only [Group.next, stepPurge] at hst
    split at hst <;> cases hst
    · exact .purge
    · exact .stay _
  | pause r newShards out =>
    simp only [Group.next, stepPause, setWritesEnabled_false (h r) out, if_true] at hst
    cases newShards <;> cases hst
    · exact .stay _
    · exact .pause
  | resume => cases hst; exact .resume
  | enable r out =>
    simp only [Group.next, stepEnable, setWritesEnabled_true (h r) out] at hst
    cases hl : s.isLeader r <;> simp only [hl, Bool.false_eq_true, if_false, if_true] at hst
    · cases hst; exact .stay _
    · obtain rfl := Option.some.inj hst
      have hstep : Step s (.enable r out) _ := .enable
      simpa using hstep
  | lead r b => cases hst; exact .lead r b
  | apply r =>
    obtain ⟨e, he, hst⟩ := Option.bind_eq_some_iff.1 hst
    obtain ⟨n, hn, rfl⟩ := Option.map_eq_some_iff.1 hst
    exact .apply he hn

/-- No step of a shard assigns the flag of a `KVStore`. -/
theorem FlagUnset.next (h : s.FlagUnset) (hst : s.next l = some s') : s'.FlagUnset := by
  intro r
  cases h.step hst with
  | @apply r' e n he hn =>
    by_cases hr : r = r'
    · subst hr
      simp only [advance, Function.update_self, (Node.applied_of_apply hn).kvStore]
      exact h r
    · simp only [advance, Function.update_of_ne hr]
      exact h r
  | enable =>
    split
    · simp only [ackResume, node_commit]; exact h r
    · simp only [node_commit]; exact h r
  | append => simp only [node_commit]; exact h r
  | purge => simp only [node_commit]; exact h r
  | _ => exact h r

omit [DecidableEq R] in
theorem flagUnset_opened : (opened R).FlagUnset := fun _ => rfl

theorem flagUnset_of_reached (h : (machine R).Reached (opened R) s) : s.FlagUnset :=
  h.invariant flagUnset_opened fun _ _ _ hs _ hst => hs.next hst

end Group

end ShardedKvs
