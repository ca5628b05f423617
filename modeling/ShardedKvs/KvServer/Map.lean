import ShardedKvs.Replica.Basic

/-!
# The sharded store is one map

Away from scaling, every replica holds the same ring.  A client request enters the `kvServer` of any
replica, which forwards it to the shard that its ring gives for the key; the leader of that shard
reads its own store as it is, or commits an entry and applies it.  The other replicas of the shard
apply the entry when they get to it.

A `Get` does not ask Raft for anything, so a replica that is elected while it lags behind would
answer from an old store.  `KvServers.Elected` names what is assumed about that: leadership moves
only to a replica that has applied the committed log.  Nothing is assumed of a shard that keeps its
leader.

* `Operation`, `Reply` : the requests of a client and their answers.
* `KvServers.machine` : client requests one after another, with the other replicas at any lag.
* `OneMap.answers` : a single map that processes the same requests.
* `KvServers.replies_eq_answers` : **for every ring the replies are those of one map**, and no shard
  and no replica stores a key that the ring gives to another shard.
-/

namespace ShardedKvs

/-- The client requests of `kv.proto`. -/
inductive Operation where
  | get (key : String)
  | put (key value : String)
  | delete (key : String)
  deriving DecidableEq

/-- The key of the request. -/
def Operation.key : Operation → String
  | .get k => k
  | .put k _ => k
  | .delete k => k

/-- What a client is answered. -/
inductive Reply where
  /-- `GetResponse`. -/
  | value (v : String)
  /-- An error with its text. -/
  | error (text : String)
  /-- `PutResponse` or `DeleteResponse`. -/
  | ack
  deriving DecidableEq

/-! ### The abstract store -/

/-- A single map from keys to values, with the answers that it has given. -/
structure OneMap where
  contents : Contents
  replies : List Reply

namespace OneMap

/-- The map processes a request. -/
def process (m : OneMap) : Operation → OneMap
  | .get k => ⟨m.contents, m.replies ++ [match m.contents.lookup k with
    | some v => .value v
    | none => .error (KeyNotFound.error {})]⟩
  | .put k v => ⟨m.contents.insert k v, m.replies ++ [.ack]⟩
  | .delete k => ⟨m.contents.erase k, m.replies ++ [.ack]⟩

/-- The answers of an empty map to a sequence of requests. -/
def answers (ops : List Operation) : List Reply := (ops.foldl process ⟨∅, []⟩).replies

end OneMap

/-! ### The servers -/

/-- The replica processes of a cluster with the ring of each, and the answers given so far. -/
structure KvServers (Shard Replica : Type*) extends Replicas Shard Replica where
  /-- The variable `ch` of each replica. -/
  ch : Replica → String → Shard
  /-- The Raft leader of each shard. -/
  leader : Shard → Replica
  /-- The client requests that have been served. -/
  requests : List Operation
  replies : List Reply

namespace KvServers

variable {Shard Replica : Type*}

/-- A freshly opened cluster, in which every replica holds `ring`. -/
def opened (ring : String → Shard) (leader : Shard → Replica) : KvServers Shard Replica where
  toReplicas := Replicas.opened Shard Replica
  ch _ := ring
  leader := leader
  requests := []
  replies := []

/-- The steps of a cluster. -/
inductive Label (Replica : Type*) where
  /-- A request enters the `kvServer` of `e` and is served by the leader of its shard. -/
  | request (e : Replica) (op : Operation)
  /-- `q` becomes the leader of its shard. -/
  | elect (q : Replica)
  /-- The state machine of `r` applies the next committed entry. -/
  | apply (r : Replica)

section Steps

variable [DecidableEq Shard] [DecidableEq Replica] (home : Replica → Shard)

/-- `shardRpcServer` on the leader `q`.  `raft.Apply` returns when the entry is committed and the
state machine of the leader has applied it. -/
def serve (d : Replicas Shard Replica) (q : Replica) :
    Operation → Option (Replicas Shard Replica × Reply)
  | .get k => some (d, match (d.node q).get k with
    | .ok v => .value v
    | .error e => .error e.error)
  | .put k v => ((d.append (home q) (.set k v)).catchUp home q).map fun d => (d, .ack)
  | .delete k => ((d.append (home q) (.delete k)).catchUp home q).map fun d => (d, .ack)

/-- One step of the cluster. -/
def next (s : KvServers Shard Replica) : Label Replica → Option (KvServers Shard Replica)
  | .request e op =>
    -- `ch.LocateKey` on the replica that the request enters through
    (serve home s.toReplicas (s.leader (s.ch e op.key)) op).map fun p =>
      { s with toReplicas := p.1, requests := s.requests ++ [op], replies := s.replies ++ [p.2] }
  | .elect q => some { s with leader := Function.update s.leader (home q) q }
  | .apply r => (s.toReplicas.apply home r).map fun d => { s with toReplicas := d }

/-- Client requests one after another. -/
def machine : Machine (KvServers Shard Replica) (Label Replica) := ⟨next home⟩

/-- A replica that becomes the leader has applied the committed log of its shard. -/
def Elected (s : KvServers Shard Replica) : Label Replica → Prop
  | .elect q => s.Current home q
  | _ => True

end Steps

/-- Every entry for a key is at the shard that the ring gives for the key. -/
def Owned (ring : String → Shard) (d : Replicas Shard Replica) : Prop :=
  ∀ x, ∀ e ∈ d.log x, ∀ k, e.pickKey k ≠ none → ring k = x

/-- The cluster stands for the map `m`: the shards together store what the map stores, each shard
only keys of its own, and the same answers have been given. -/
structure StandsFor (ring : String → Shard) (home : Replica → Shard) (m : OneMap)
    (s : KvServers Shard Replica) : Prop where
  ch : ∀ r, s.ch r = ring
  leader : ∀ x, home (s.leader x) = x
  current : ∀ x, s.Current home (s.leader x)
  replays : s.Replays home
  unrestored : ∀ r, s.Unrestored r
  lookup : ∀ k, (s.committed (ring k)).lookup k = m.contents.lookup k
  owned : Owned ring s.toReplicas
  replies : s.replies = m.replies

/-! ### One request -/

section

variable [DecidableEq Shard] [DecidableEq Replica] {ring : String → Shard} {home : Replica → Shard}
  {d : Replicas Shard Replica} {s : KvServers Shard Replica} {m : OneMap}

omit [DecidableEq Shard] [DecidableEq Replica] in
/-- A store that a part of an owned log gives has only keys of the shard. -/
theorem Owned.ring_eq (h : Owned ring d) {x : Shard} {log : List KVFSMLogEntry}
    (hlog : ∀ e ∈ log, e ∈ d.log x) {k v : String} (hk : (storeOf log).lookup k = some v) :
    ring k = x := by
  by_contra hne
  rw [lookup_storeOf, latest_of_forall_none] at hk
  · exact nomatch hk
  · intro e he
    by_contra hpick
    exact hne (h x e (hlog e he) k hpick)

omit [DecidableEq Replica] in
theorem Owned.append (h : Owned ring d) {x : Shard} {e : KVFSMLogEntry}
    (he : ∀ k, e.pickKey k ≠ none → ring k = x) : Owned ring (d.append x e) := by
  intro y e' he' k hk
  rw [Replicas.log_append] at he'
  split at he'
  · rename_i hy
    rw [hy]
    rcases List.mem_append.1 he' with he' | he'
    · exact h x e' he' k hk
    · rw [List.mem_singleton.1 he'] at hk
      exact he k hk
  · exact h y e' he' k hk

omit [DecidableEq Replica] in
/-- Committing an entry for keys of the shard has the effect of the entry on the whole. -/
theorem lookup_append_committed {x : Shard} {e : KVFSMLogEntry}
    (he : ∀ k, e.pickKey k ≠ none → ring k = x) (k : String) :
    ((d.append x e).committed (ring k)).lookup k =
      (e.pickKey k).getD ((d.committed (ring k)).lookup k) := by
  rw [Replicas.lookup_committed_append]
  split_ifs with hx
  · rfl
  · have hnone : e.pickKey k = none := by
      by_contra hpick
      exact hx (he k hpick)
    rw [hnone]
    rfl

omit [DecidableEq Shard] [DecidableEq Replica] in
theorem StandsFor.get (h : StandsFor ring home m s) (k : String) :
    (s.node (s.leader (ring k))).get k = match m.contents.lookup k with
      | some v => .ok v
      | none => .error {} := by
  have hcur := h.current (ring k)
  rw [(h.replays _ hcur.unrestored).get, hcur.applied, List.take_length, h.leader, ← h.lookup k]
  rfl

theorem StandsFor.write (h : StandsFor ring home m s) {x : Shard} {e : KVFSMLogEntry}
    (he : ∀ k, e.pickKey k ≠ none → ring k = x) {m' : OneMap}
    (hm : ∀ k, m'.contents.lookup k = (e.pickKey k).getD (m.contents.lookup k))
    (hreplies : m'.replies = m.replies ++ [.ack]) (op : Operation) :
    ∃ d', (s.toReplicas.append (home (s.leader x)) e).catchUp home (s.leader x) = some d' ∧
      StandsFor ring home m' { s with
        toReplicas := d', requests := s.requests ++ [op], replies := s.replies ++ [.ack] } := by
  rw [h.leader]
  obtain ⟨d', hd', hlog, hreplays, hcur, hun⟩ :=
    (h.replays.append x e).exists_catchUp (h.unrestored (s.leader x))
  have hcommitted : d'.committed = (s.toReplicas.append x e).committed := by
    funext y
    rw [Replicas.committed, hlog]
    rfl
  refine ⟨d', hd', h.ch, h.leader, fun y => ?_, hreplays, fun r => hun r (h.unrestored r),
    fun k => ?_, ?_, ?_⟩
  · by_cases hy : y = x
    · subst hy; exact hcur
    · -- the log of another shard and its leader are as before
      refine ⟨?_, hun _ (h.unrestored _)⟩
      have hne : s.leader y ≠ s.leader x := fun heq => hy (by rw [← h.leader y, heq, h.leader])
      show d'.applied (s.leader y) = (d'.log (home (s.leader y))).length
      rw [Replicas.applied_catchUp hd' hne, hlog, h.leader, Replicas.log_append, if_neg hy]
      have happlied := (h.current y).applied
      rwa [h.leader] at happlied
  · show (d'.committed (ring k)).lookup k = _
    rw [hcommitted, lookup_append_committed he, h.lookup, hm]
  · intro y
    rw [hlog]
    exact h.owned.append he y
  · rw [hreplies, ← h.replies]

theorem StandsFor.request (h : StandsFor ring home m s) (e : Replica) (op : Operation) :
    ∃ s', s.next home (.request e op) = some s' ∧ s'.requests = s.requests ++ [op] ∧
      StandsFor ring home (m.process op) s' := by
  simp only [next, h.ch e]
  cases op with
  | get k =>
    refine ⟨_, rfl, rfl, h.ch, h.leader, h.current, h.replays, h.unrestored, h.lookup, h.owned, ?_⟩
    rw [OneMap.process, ← h.replies]
    simp only [Operation.key, h.get k]
    cases m.contents.lookup k <;> rfl
  | put k v =>
    have he : ∀ k', (KVFSMLogEntry.set k v).pickKey k' ≠ none → ring k' = ring k := by
      intro k' hk'
      by_cases hkk : k' = k
      · rw [hkk]
      · exact absurd (if_neg hkk) hk'
    have hm : ∀ k', (m.process (.put k v)).contents.lookup k' =
        ((KVFSMLogEntry.set k v).pickKey k').getD (m.contents.lookup k') := by
      intro k'
      rw [OneMap.process, lookup_insert_eq, KVFSMLogEntry.pickKey_set]
      split <;> rfl
    obtain ⟨d', hd', h'⟩ := h.write he hm rfl (.put k v)
    exact ⟨_, by rw [Operation.key, serve, hd']; rfl, rfl, h'⟩
  | delete k =>
    have he : ∀ k', (KVFSMLogEntry.delete k).pickKey k' ≠ none → ring k' = ring k := by
      intro k' hk'
      by_cases hkk : k' = k
      · rw [hkk]
      · exact absurd (if_neg hkk) hk'
    have hm : ∀ k', (m.process (.delete k)).contents.lookup k' =
        ((KVFSMLogEntry.delete k).pickKey k').getD (m.contents.lookup k') := by
      intro k'
      rw [OneMap.process, lookup_erase_eq, KVFSMLogEntry.pickKey_delete]
      split <;> rfl
    obtain ⟨d', hd', h'⟩ := h.write he hm rfl (.delete k)
    exact ⟨_, by rw [Operation.key, serve, hd']; rfl, rfl, h'⟩

omit [DecidableEq Replica] in
theorem StandsFor.elect (h : StandsFor ring home m s) {q : Replica} (hq : s.Current home q) :
    StandsFor ring home m { s with leader := Function.update s.leader (home q) q } := by
  refine ⟨h.ch, fun x => ?_, fun x => ?_, h.replays, h.unrestored, h.lookup, h.owned, h.replies⟩
  · simp only [Function.update_apply]
    split
    · rename_i hx; exact hx.symm
    · exact h.leader x
  · simp only [Function.update_apply]
    split
    · exact hq
    · exact h.current x

omit [DecidableEq Shard] in
theorem StandsFor.apply (h : StandsFor ring home m s) {r : Replica} {d' : Replicas Shard Replica}
    (hd' : s.toReplicas.apply home r = some d') :
    StandsFor ring home m { s with toReplicas := d' } := by
  have hlog := Replicas.log_apply hd'
  have hun := fun r' => (Replicas.unrestored_apply hd' r').2 (h.unrestored r')
  refine ⟨h.ch, h.leader, fun x => ?_, h.replays.apply hd', hun, fun k => ?_, fun x => ?_,
    h.replies⟩
  · exact (h.current x).of_apply hd'
  · show (d'.committed (ring k)).lookup k = _
    rw [← h.lookup k, Replicas.committed, hlog]
    rfl
  · rw [hlog]
    exact h.owned x

/-! ### Whole runs -/

/-- The map that has processed the requests of the cluster. -/
def oneMap (s : KvServers Shard Replica) : OneMap := s.requests.foldl OneMap.process ⟨∅, []⟩

/-- **The step lemma.**  Every step of the cluster follows the map. -/
theorem StandsFor.next (h : StandsFor ring home s.oneMap s) {s' : KvServers Shard Replica}
    {l : Label Replica} (hl : s.Elected home l) (hst : s.next home l = some s') :
    StandsFor ring home s'.oneMap s' := by
  cases l with
  | request e op =>
    obtain ⟨s₁, hs₁, hrequests, h₁⟩ := h.request e op
    obtain rfl : s₁ = s' := Option.some.inj (hs₁.symm.trans hst)
    rw [oneMap, hrequests, List.foldl_append]
    exact h₁
  | elect q => cases hst; exact h.elect hl
  | apply r =>
    obtain ⟨d', hd', rfl⟩ := Option.map_eq_some_iff.1 hst
    exact h.apply hd'

omit [DecidableEq Shard] [DecidableEq Replica] in
theorem standsFor_opened (ring : String → Shard) {leader : Shard → Replica}
    (hleader : ∀ x, home (leader x) = x) :
    StandsFor ring home ⟨∅, []⟩ (opened ring leader) where
  ch _ := rfl
  leader := hleader
  current _ := ⟨rfl, rfl⟩
  replays := Replicas.replays_opened home
  unrestored _ := rfl
  lookup _ := rfl
  owned _ _ he := by cases he
  replies := rfl

omit [DecidableEq Shard] [DecidableEq Replica] in
/-- A replica stores only keys of its shard. -/
theorem StandsFor.ring_eq_home (h : StandsFor ring home m s) {r : Replica} {k v : String}
    (hk : (s.node r).get k = .ok v) : ring k = home r := by
  rw [(h.replays r (h.unrestored r)).get] at hk
  split at hk
  · rename_i hlookup
    exact h.owned.ring_eq (fun e he => List.mem_of_mem_take he) hlookup
  · exact nomatch hk

/-- **Away from scaling, the sharded store is one map.**  For every ring that all replicas hold, and
every sequence of client requests that enter at any replicas of a freshly opened cluster and are
served by the leaders of their shards, with the other replicas at any lag and up-to-date ones taking
over the leadership: the replies are those of a single map that processes the same requests, the
next request is always answered, and neither the committed log of a shard nor any of its replicas
stores a key that the ring gives to another shard. -/
theorem replies_eq_answers (ring : String → Shard) (home : Replica → Shard)
    (leader : Shard → Replica) (hleader : ∀ x, home (leader x) = x) (s : KvServers Shard Replica)
    (h : (machine home).ReachedBy (Elected home) (opened ring leader) s) :
    s.replies = OneMap.answers s.requests ∧
      (∀ e op, ∃ s', s.next home (.request e op) = some s' ∧ s'.requests = s.requests ++ [op]) ∧
      (∀ x k v, (s.committed x).lookup k = some v → ring k = x) ∧
      ∀ r k v, (s.node r).get k = .ok v → ring k = home r := by
  have hs : StandsFor ring home s.oneMap s :=
    h.invariant (I := fun s => StandsFor ring home s.oneMap s) (standsFor_opened ring hleader)
      fun _ _ _ hi hl hst => hi.next hl hst
  refine ⟨hs.replies, fun e op => ?_, fun x k v hk => hs.owned.ring_eq (fun _ he => he) hk,
    fun r k v hk => hs.ring_eq_home hk⟩
  obtain ⟨s', hs', hrequests, -⟩ := hs.request e op
  exact ⟨s', hs', hrequests⟩

end

/-- Two shards with two replicas each; the leader of one changes between two requests. -/
theorem replies_eq_answers_two_shards :
    ∃ s, (machine Prod.fst).ReachedBy (Elected Prod.fst)
        (opened (fun k => decide (k = "a")) fun x : Bool => (x, true)) s ∧
      s.requests = [.put "a" "1", .get "a", .get "b"] ∧
      s.replies = OneMap.answers [.put "a" "1", .get "a", .get "b"] := by
  obtain ⟨s, hs, hrequests⟩ : ∃ s, (machine Prod.fst).ReachedBy (Elected Prod.fst)
      (opened (fun k => decide (k = "a")) fun x : Bool => (x, true)) s ∧
      s.requests = [.put "a" "1", .get "a", .get "b"] :=
    ⟨_, .head (l := .request (false, false) (.put "a" "1")) trivial rfl <|
      .head (l := .apply (true, false)) trivial rfl <|
      .head (l := .elect (true, false)) ⟨rfl, rfl⟩ rfl <|
      .head (l := .request (true, false) (.get "a")) trivial rfl <|
      .head (l := .request (true, true) (.get "b")) trivial rfl .start, rfl⟩
  have hreplies := (replies_eq_answers _ Prod.fst (fun x => (x, true)) (fun _ => rfl) s hs).1
  exact ⟨s, hs, hrequests, by rw [hreplies, hrequests]⟩

end KvServers

end ShardedKvs
