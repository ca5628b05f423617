import ShardedKvs.Shard.Pause

/-!
# The two ways into a shard

The load balancer in front of a shard picks the replica that a write enters through.  The
`shardRpcServer` of the leader calls `Set` or `Delete` itself; that of a follower forwards the
request to the `replicaRpcServer` of the leader, which asks `GetWritesEnabled` before a client
`Put`.  Here a single request is driven to its answer while the leader is stable and nothing else
happens at the shard.

* `Group.serve` : the request enters through a replica and is answered.
* `Group.serve_leader`, `Group.serve_follower` : the answer, and what is committed.
* `Group.same_effect_iff` : **the replica does not matter exactly for the requests that are not
  client `Put`s**.
* `Group.not_same_effect` : a shard that was never paused rejects a client `Put` that a follower
  forwards, and accepts the same `Put` at its leader.
-/

namespace ShardedKvs

namespace Group

variable {R : Type*}

/-- The store that the committed log gives. -/
def committedStore (s : Group R) : Contents := storeOf (s.log.map Logged.entry)

/-- The answers, the committed store and what may still be committed are the same. -/
def SameEffect (s₁ s₂ : Group R) : Prop :=
  s₁.replies = s₂.replies ∧ s₁.committedStore = s₂.committedStore ∧ s₁.late = s₂.late

/-- A request stands at a point, behind the requests that are already being served. -/
def standing (s : Group R) (req : Request) (p : Point R) : Group R :=
  { s with
    arrived := s.arrived + 1
    tasks := s.tasks ++ [⟨s.arrived, req, p, false⟩] }

/-- A request has been answered. -/
def answered (s : Group R) (req : Request) (res : Except RpcError Unit) : Group R :=
  { s with
    arrived := s.arrived + 1
    replies := s.replies ++ [⟨s.arrived, req, res⟩] }

section Serve

variable [DecidableEq R]

/-- The next step of request `i`, if it is still being served; every replica knows `leader`. -/
def proceed (leader : R) (out : Outcome) (i : ℕ) (s : Group R) : Option (Group R) :=
  match s.tasks[i]? with
  | none => some s
  | some t => if t.point.appends then s.next (.append i out) else s.next (.check i (some leader))

/-- A request enters through `r` and is served to its end: at most three checks and one
`raft.Apply`. -/
def serve (s : Group R) (r leader : R) (req : Request) (out : Outcome) : Option (Group R) :=
  (s.next (.arrive r req)).bind fun s =>
    let i := s.tasks.length - 1
    (s.proceed leader out i).bind fun s => (s.proceed leader out i).bind fun s =>
      (s.proceed leader out i).bind fun s => s.proceed leader out i

end Serve

/-! ### The steps of one request -/

variable {s : Group R} {r leader : R} {req : Request}

theorem tasks_standing (s : Group R) (req : Request) (p : Point R) :
    (s.standing req p).tasks[s.tasks.length]? = some ⟨s.arrived, req, p, false⟩ := by
  simp [standing]

theorem goto_standing (s : Group R) (req : Request) (p p' : Point R) :
    (s.standing req p).goto s.tasks.length ⟨s.arrived, req, p, false⟩ p' = s.standing req p' := by
  simp [standing, goto]

theorem reply_standing (s : Group R) (req : Request) (p : Point R) (res : Except RpcError Unit) :
    (s.standing req p).reply s.tasks.length ⟨s.arrived, req, p, false⟩ res =
      s.answered req res := by
  simp [standing, reply, answered, List.eraseIdx_append_of_length_le]

variable [DecidableEq R]

/-- An answered request takes no further step. -/
theorem proceed_answered (out : Outcome) (res : Except RpcError Unit) :
    (s.answered req res).proceed leader out s.tasks.length = some (s.answered req res) := by
  have h : (s.answered req res).tasks[s.tasks.length]? = none := List.getElem?_eq_none le_rfl
  simp only [proceed, h]

theorem proceed_committed (out : Outcome) (e : Logged) (res : Except RpcError Unit) :
    ((s.answered req res).commit out e).proceed leader out s.tasks.length =
      some ((s.answered req res).commit out e) := by
  have h : ((s.answered req res).commit out e).tasks[s.tasks.length]? = none := by
    rw [tasks_commit]
    exact List.getElem?_eq_none le_rfl
  simp only [proceed, h]

/-- Past the checks the request is appended, and answered with the outcome of `raft.Apply`. -/
theorem proceed_append {p : Point R} (hp : p.appends = true) (out : Outcome) :
    (s.standing req p).proceed leader out s.tasks.length =
      some ((s.answered req (if out = .ok then .ok () else .error .apply)).commit out
        (logged s.arrived req)) := by
  simp [proceed, tasks_standing, Group.next, stepAppend, reply_standing, hp]

theorem proceed_shardRpc_leader (hl : s.isLeader leader = true) (out : Outcome) :
    (s.standing req (.shardRpc leader)).proceed leader out s.tasks.length =
      some (s.standing req (.shardAppend leader)) := by
  have hl' : (s.standing req (.shardRpc leader)).isLeader leader = true := hl
  simp [proceed, tasks_standing, Group.next, stepCheck, Point.appends, hl', goto_standing]

theorem proceed_shardRpc_follower (hr : s.isLeader r = false) (out : Outcome) :
    (s.standing req (.shardRpc r)).proceed leader out s.tasks.length =
      some (s.standing req (.replicaRpc leader)) := by
  have hr' : (s.standing req (.shardRpc r)).isLeader r = false := hr
  simp [proceed, tasks_standing, Group.next, stepCheck, Point.appends, hr', forward, goto_standing]

/-- A forwarded client `Put` is rejected: the flag of `KVStore` is never set. -/
theorem proceed_replicaRpc_clientPut (h : s.FlagUnset) (k v : String) (out : Outcome) :
    (s.standing (.put k v false) (.replicaRpc leader)).proceed leader out s.tasks.length =
      some (s.answered (.put k v false) (.error .writesDisabled)) := by
  have hf : ((s.standing (.put k v false) (.replicaRpc leader)).node leader).getWritesEnabled =
      false := h leader
  simp [proceed, tasks_standing, Group.next, stepCheck, Point.appends, hf, reply_standing]

theorem proceed_replicaRpc (hreq : ∀ k v, req ≠ .put k v false) (out : Outcome) :
    (s.standing req (.replicaRpc leader)).proceed leader out s.tasks.length =
      some (s.standing req (.set leader)) := by
  cases req with
  | put k v isRedistribution =>
    cases isRedistribution with
    | false => exact absurd rfl (hreq k v)
    | true => simp [proceed, tasks_standing, Group.next, stepCheck, Point.appends, goto_standing]
  | delete k => simp [proceed, tasks_standing, Group.next, stepCheck, Point.appends, goto_standing]

theorem proceed_set (hl : s.isLeader leader = true) (out : Outcome) :
    (s.standing req (.set leader)).proceed leader out s.tasks.length =
      some (s.standing req (.append leader)) := by
  have hl' : (s.standing req (.set leader)).isLeader leader = true := hl
  simp [proceed, tasks_standing, Group.next, stepCheck, Point.appends, hl', goto_standing]

/-! ### One request, from its entry to its answer -/

theorem serve_eq (s : Group R) (r leader : R) (req : Request) (out : Outcome) :
    s.serve r leader req out =
      ((s.standing req (.shardRpc r)).proceed leader out s.tasks.length).bind fun s₁ =>
        (s₁.proceed leader out s.tasks.length).bind fun s₂ =>
          (s₂.proceed leader out s.tasks.length).bind fun s₃ =>
            s₃.proceed leader out s.tasks.length := by
  simp [serve, Group.next, standing]

/-- Through the leader every request is appended, whatever the flag says. -/
theorem serve_leader (hl : s.isLeader leader = true) (req : Request) (out : Outcome) :
    s.serve leader leader req out =
      some ((s.answered req (if out = .ok then .ok () else .error .apply)).commit out
        (logged s.arrived req)) := by
  rw [serve_eq, proceed_shardRpc_leader hl, Option.bind_some, proceed_append rfl, Option.bind_some,
    proceed_committed, Option.bind_some, proceed_committed]

/-- Through a follower a client `Put` is rejected, in every state. -/
theorem serve_follower_clientPut (h : s.FlagUnset) (hr : s.isLeader r = false) (k v : String)
    (out : Outcome) :
    s.serve r leader (.put k v false) out =
      some (s.answered (.put k v false) (.error .writesDisabled)) := by
  rw [serve_eq, proceed_shardRpc_follower hr, Option.bind_some, proceed_replicaRpc_clientPut h,
    Option.bind_some, proceed_answered, Option.bind_some, proceed_answered]

/-- Through a follower every other request is appended by the leader. -/
theorem serve_follower (hl : s.isLeader leader = true) (hr : s.isLeader r = false)
    (hreq : ∀ k v, req ≠ .put k v false) (out : Outcome) :
    s.serve r leader req out =
      some ((s.answered req (if out = .ok then .ok () else .error .apply)).commit out
        (logged s.arrived req)) := by
  rw [serve_eq, proceed_shardRpc_follower hr, Option.bind_some, proceed_replicaRpc hreq,
    Option.bind_some, proceed_set hl, Option.bind_some, proceed_append rfl]

/-- **Which replica a write enters through matters for client `Put`s, and only for them.**  In
every reachable state of a shard with a stable leader, both ways answer the request; the answers,
the committed stores and what may still be committed are the same exactly when the request is a
`Delete` or a redistribution `Put`. -/
theorem same_effect_iff (h : (machine R).Reached (opened R) s) (hl : s.isLeader leader = true)
    (hr : s.isLeader r = false) (req : Request) (out : Outcome) :
    ∃ s₁ s₂, s.serve leader leader req out = some s₁ ∧ s.serve r leader req out = some s₂ ∧
      (s₁.SameEffect s₂ ↔ ∀ k v, req ≠ .put k v false) := by
  by_cases hreq : ∀ k v, req ≠ .put k v false
  · exact ⟨_, _, serve_leader hl req out, serve_follower hl hr hreq out,
      fun _ => hreq, fun _ => ⟨rfl, rfl, rfl⟩⟩
  · push Not at hreq
    obtain ⟨k, v, rfl⟩ := hreq
    refine ⟨_, _, serve_leader hl _ out,
      serve_follower_clientPut (flagUnset_of_reached h) hr k v out, ?_⟩
    refine ⟨fun hsame => ?_, fun hne => absurd rfl (hne k v)⟩
    -- the leader never answers that writes are disabled
    have hreplies := hsame.1
    rw [replies_commit] at hreplies
    simp only [answered, List.append_cancel_left_eq, List.cons.injEq, Response.mk.injEq] at hreplies
    split at hreplies <;> simp at hreplies

/-- A shard whose replica `true` has just been elected. -/
def elected : Group Bool :=
  { opened Bool with isLeader := Function.update (fun _ => false) true true }

theorem reached_elected : (machine Bool).Reached (opened Bool) elected :=
  Machine.Reached.of_run [.lead true true] rfl

theorem same_effect_of_delete :
    ∃ s₁ s₂, elected.serve true true (.delete "a") .ok = some s₁ ∧
      elected.serve false true (.delete "a") .ok = some s₂ ∧
      (s₁.SameEffect s₂ ↔ ∀ k v, Request.delete "a" ≠ .put k v false) :=
  same_effect_iff reached_elected rfl rfl (.delete "a") .ok

/-- **A shard that was never paused rejects a client `Put` as disabled**, when it enters through a
follower; through the leader the same `Put` is acknowledged and stored. -/
theorem not_same_effect :
    ¬ ∀ (s : Group Bool) (leader r : Bool) (req : Request) (s₁ s₂ : Group Bool),
      (machine Bool).Reached (opened Bool) s → s.isLeader leader = true → s.isLeader r = false →
      s.serve leader leader req .ok = some s₁ → s.serve r leader req .ok = some s₂ →
      s₁.SameEffect s₂ := by
  intro h
  have hsame := h elected true false (.put "a" "1" false) _ _ reached_elected rfl rfl
    (serve_leader rfl _ .ok)
    (serve_follower_clientPut (flagUnset_of_reached reached_elected) rfl "a" "1" .ok)
  exact absurd hsame.1 (by decide)

end Group

end ShardedKvs
