import ShardedKvs.Machine.Basic
import ShardedKvs.Raft.Join

/-!
# The members of a Raft group over restarts

A process of a replica asks twice to be counted in its Raft group.  When it starts, a goroutine
connects to the replicas of the shard, looks for the leader and sends it a `Join`; when a signal
ends it, `main` sends the leader a `DemoteVoter`.  The two goroutines do not wait for each other,
both throw the reply away, and a request may be served long after its sender is gone.  The handler
of a `Join` reads the configuration once and then changes it call by call, so handlers may also
overtake each other.

* `Process`, `Process.step` : the two goroutines of one process; a lookup of a missing client in
  `replicaClients` is a panic.
* `Handler`, `Handler.step` : a request that is being served, one Raft call at a time;
  `Completes.join` : left alone, the handler of a `Join` does what `KVStore.Join` does.
* `Members`, `Members.machine` : all processes of a shard, the requests on their way, the handlers
  and the configuration of the group.  Processes are started, killed and signalled at any time.
* `Members.not_panicked` : **no client is ever missing** if the leaders that are found are among the
  replicas of the mounted configuration and no process is stopped before it has its clients.
-/

namespace ShardedKvs

namespace Raft

open Program

/-! ### One process -/

/-- The goroutine that runs `PopulateReplicaClients`, which ends in `JoinCluster`. -/
inductive Joiner where
  /-- The replicas that the loop of `PopulateReplicaClients` has not come to. -/
  | dialling (todo : List String)
  /-- The replicas that `JoinCluster` has not asked for the leader in this round. -/
  | asking (todo : List String)
  /-- `JoinCluster` waits for `HasLatestLogs`. -/
  | syncing (leader : String)
  /-- `JoinCluster` is about to call `Join` on the leader. -/
  | joining (leader : String)
  | joined
  deriving DecidableEq

/-- The call of `Join` is still to come. -/
def Joiner.unsent : Joiner → Bool
  | .joined => false
  | _ => true

/-- The goroutine of `main`, once everything is started. -/
inductive MainPoint where
  /-- `<-signalCh` -/
  | serving
  | closing
  /-- `main` is about to call `DemoteVoter` on the leader. -/
  | leaving (leader : String)
  | asleep
  deriving DecidableEq

/-- A process of a replica. -/
structure Process where
  /-- The flag `address`. -/
  address : String
  /-- The replicas of the shard in the mounted configuration. -/
  replicas : List String
  /-- The keys of `replicaClients`. -/
  clients : List String
  joiner : Joiner
  main : MainPoint

/-- The process when `main` starts its goroutines. -/
def Process.opened (address : String) (replicas : List String) : Process :=
  ⟨address, replicas, [], .dialling replicas, .serving⟩

/-- `JoinRequest` and `DemoteVoterRequest`. -/
inductive Request where
  | join (replica address : String)
  | demoteVoter (replica address : String)
  deriving DecidableEq

/-- The replica that has sent the request. -/
def Request.replica : Request → String
  | .join r _ => r
  | .demoteVoter r _ => r

/-- The address in a `JoinRequest`. -/
def Request.joinAddress : Request → Option String
  | .join _ ip => some ip
  | .demoteVoter _ _ => none

/-- What one of the two goroutines does next. -/
inductive Act where
  /-- A client is dialled, or found to be there. -/
  | dial
  /-- `JoinCluster` starts and reads `kvStore.Leader()`. -/
  | readLeader (leader : String)
  /-- The next replica is asked for the leader; `none` is an error. -/
  | ask (answer : Option String)
  /-- All replicas have been asked in vain. -/
  | again
  /-- `kvStore.HasLatestLogs()` has returned true. -/
  | synced
  | join
  /-- The signal arrives. -/
  | signal
  /-- `kvStore.Close()` has returned; `main` reads `kvStore.Leader()`. -/
  | close (leader : String)
  | demoteVoter

/-- The effect of an action: the process goes on and may send a request, or it panics. -/
inductive Turn where
  | goes (p : Process) (sent : Option Request)
  | panics

section

variable (shard : String) (raftPort : ℕ)

/-- One action of the process of replica `r`. -/
def Process.step (r : String) (p : Process) : Act → Option Turn
  | .dial =>
    match p.joiner with
    | .dialling (d :: ds) =>
      some (.goes { p with
        clients := raftId d shard raftPort :: p.clients, joiner := .dialling ds } none)
    | _ => none
  | .readLeader leader =>
    match p.joiner with
    | .dialling [] =>
      some (.goes { p with
        joiner := if leader = "" then .asking p.replicas else .syncing leader } none)
    | _ => none
  | .ask answer =>
    match p.joiner with
    | .asking (d :: ds) =>
      if raftId d shard raftPort ∈ p.clients then
        let leader := answer.getD ""
        some (.goes { p with joiner := if leader = "" then .asking ds else .syncing leader } none)
      else some .panics
    | _ => none
  | .again =>
    match p.joiner with
    | .asking [] => some (.goes { p with joiner := .asking p.replicas } none)
    | _ => none
  | .synced =>
    match p.joiner with
    | .syncing leader => some (.goes { p with joiner := .joining leader } none)
    | _ => none
  | .join =>
    match p.joiner with
    | .joining leader =>
      if leader ∈ p.clients then
        some (.goes { p with joiner := .joined } (some (.join r p.address)))
      else some .panics
    | _ => none
  | .signal =>
    match p.main with
    | .serving => some (.goes { p with main := .closing } none)
    | _ => none
  | .close leader =>
    match p.main with
    | .closing =>
      some (.goes { p with main := if leader = "" then .asleep else .leaving leader } none)
    | _ => none
  | .demoteVoter =>
    match p.main with
    | .leaving leader =>
      if leader ∈ p.clients then
        some (.goes { p with main := .asleep } (some (.demoteVoter r p.address)))
      else some .panics
    | _ => none

/-! ### Requests that are being served -/

/-- What Raft answers to a call of a handler. -/
inductive Answer where
  /-- `State()` before the call is not `Leader`. -/
  | follower
  | ok
  /-- The call fails.  Raft has made the change by then, or it never will: a change of the
  configuration holds from the moment it is in the log of the leader. -/
  | failed (done : Bool)

/-- Where a handler is. -/
inductive Stage where
  | called
  /-- `Join` has read the configuration; the loop has still to come to these servers. -/
  | walking (servers : List Server)
  deriving DecidableEq

/-- A request that is being served. -/
structure Handler where
  request : Request
  stage : Stage
  deriving DecidableEq

/-- One step of a handler, up to and including its next call of Raft; `none` when it returns. -/
def Handler.step (a : Answer) (c : Configuration) : Handler → Configuration × Option Handler
  | ⟨.join r ip, .called⟩ =>
    match a with
    | .ok => (c, some ⟨.join r ip, .walking c.servers⟩)
    | _ => (c, none)
  | ⟨.join r ip, .walking (m :: ms)⟩ =>
    let id := raftId r shard raftPort
    let address := raftAddress ip raftPort
    if m.id = id ∨ m.address = address then
      if m.id = id ∧ m.address = address then (c, none)
      else
        match a with
        | .ok => (c.removeServer m.id, some ⟨.join r ip, .walking ms⟩)
        | .failed true => (c.removeServer m.id, none)
        | _ => (c, none)
    else (c, some ⟨.join r ip, .walking ms⟩)
  | ⟨.join r ip, .walking []⟩ =>
    -- `JoinReplica`; Raft refuses an address that another server has
    match a with
    | .ok | .failed true =>
      ((c.addVoter (raftId r shard raftPort) (raftAddress ip raftPort)).getD c, none)
    | _ => (c, none)
  | ⟨.demoteVoter r _, _⟩ =>
    match a with
    | .ok | .failed true => (c.demoteVoter (raftId r shard raftPort), none)
    | _ => (c, none)

/-- The handler, left alone, leaves the configuration `c'` behind. -/
inductive Completes : Handler → Configuration → Configuration → Prop where
  | ends {h : Handler} {c c' : Configuration} (a : Answer)
      (hstep : h.step shard raftPort a c = (c', none)) : Completes h c c'
  | goes {h h' : Handler} {c c' c'' : Configuration} (a : Answer)
      (hstep : h.step shard raftPort a c = (c', some h')) (hrest : Completes h' c' c'') :
      Completes h c c''

/-! ### The shard -/

/-- The replicas of a shard. -/
structure Members where
  configuration : Configuration
  process : String → Option Process
  /-- The requests that have been sent and have not arrived. -/
  requests : List Request
  handlers : List Handler
  /-- Some process has called a client that is not there. -/
  panicked : Bool

namespace Members

/-- The events of a shard. -/
inductive Label where
  /-- A process of the replica is started. -/
  | start (r address : String) (replicas : List String)
  | act (r : String) (a : Act)
  /-- The process ends, at the end of `main` or anywhere before. -/
  | kill (r : String)
  /-- A request arrives at a replica. -/
  | serve (q : Request)
  | handle (h : Handler) (a : Answer)
  /-- A request is lost. -/
  | lose (q : Request)
  /-- The process that serves the request ends. -/
  | drop (h : Handler)

/-- One event. -/
def next (s : Members) : Label → Option Members
  | .start r address replicas =>
    match s.process r with
    | none =>
      some { s with process := Function.update s.process r (some (.opened address replicas)) }
    | some _ => none
  | .act r a =>
    match s.process r with
    | none => none
    | some p =>
      match p.step shard raftPort r a with
      | none => none
      | some (.goes p' sent) =>
        some { s with
          process := Function.update s.process r (some p')
          requests := sent.toList ++ s.requests }
      | some .panics =>
        some { s with process := Function.update s.process r none, panicked := true }
  | .kill r => some { s with process := Function.update s.process r none }
  | .serve q =>
    if q ∈ s.requests then
      some { s with
        requests := s.requests.erase q
        handlers := ⟨q, .called⟩ :: s.handlers }
    else none
  | .handle h a =>
    if h ∈ s.handlers then
      let x := h.step shard raftPort a s.configuration
      some { s with
        configuration := x.1
        handlers := x.2.toList ++ s.handlers.erase h }
    else none
  | .lose q => some { s with requests := s.requests.erase q }
  | .drop h => some { s with handlers := s.handlers.erase h }

/-- The shard as a machine. -/
def machine : Machine Members Label := ⟨next shard raftPort⟩

/-- The shard whose first replica `r`, with the flag `address` set to `ip`, has just bootstrapped
the group at `transport.LocalAddr()`. -/
def bootstrapped (r ip localAddr : String) (replicas : List String) : Members where
  configuration := .single (raftId r shard raftPort) localAddr
  process := Function.update (fun _ => none) r (some (.opened ip replicas))
  requests := []
  handlers := []
  panicked := false

end Members

end

variable {shard : String} {raftPort : ℕ}

/-! ### A handler that is left alone -/

section Completes

variable {r ip : String} {c : Configuration}

theorem Completes.joinReplica (a : Calls) :
    Completes shard raftPort ⟨.join r ip, .walking []⟩ c
      (final (Raft.joinReplica a (raftId r shard raftPort) (raftAddress ip raftPort)) c) := by
  unfold Raft.joinReplica
  split_ifs
  · exact .ends .follower rfl
  · unfold final change
    cases a.addVoter with
    | some e => exact .ends (.failed false) rfl
    | none =>
      refine .ends .ok ?_
      simp only [Handler.step]
      cases c.addVoter (raftId r shard raftPort) (raftAddress ip raftPort) <;> rfl

theorem Completes.removeClashes (a : Calls) (ms : List Server) :
    Completes shard raftPort ⟨.join r ip, .walking ms⟩ c (final (do
      let present ← Raft.removeClashes a (raftId r shard raftPort) (raftAddress ip raftPort) ms
      if present then pure ()
      else Raft.joinReplica a (raftId r shard raftPort) (raftAddress ip raftPort)) c) := by
  induction ms generalizing c with
  | nil => exact .joinReplica a
  | cons m ms ih =>
    unfold Raft.removeClashes
    split_ifs with hclash hexact
    · refine .ends .ok ?_
      simp only [Handler.step, if_pos hclash, if_pos hexact]
      rfl
    · rw [bind_assoc, final_bind]
      cases herr : a.removeServer m.id with
      | some e =>
        refine .ends (.failed false) ?_
        simp only [Handler.step, if_pos hclash, if_neg hexact, change]
      | none =>
        refine .goes .ok ?_ ih
        simp only [Handler.step, if_pos hclash, if_neg hexact]
    · refine .goes .ok ?_ ih
      simp only [Handler.step, if_neg hclash]

/-- **A handler that is left alone does what `KVStore.Join` does**, whatever Raft answers. -/
theorem Completes.join (a : Calls) :
    Completes shard raftPort ⟨.join r ip, .called⟩ c
      (final (Raft.join a ip raftPort shard r) c) := by
  unfold Raft.join joinAs
  split_ifs
  · exact .ends .follower rfl
  · rw [final_bind]
    unfold getConfiguration
    cases a.getConfiguration with
    | some e => exact .ends (.failed false) rfl
    | none => exact .goes .ok rfl (.removeClashes a c.servers)

end Completes

namespace Members

variable {s s' : Members} {l : Label}

theorem update_eq_some {f : String → Option Process} {r r' : String} {x : Option Process}
    {p : Process} (h : Function.update f r x r' = some p) :
    (r' = r ∧ x = some p) ∨ (r' ≠ r ∧ f r' = some p) := by
  obtain rfl | hne := eq_or_ne r' r
  · rw [Function.update_self] at h
    exact .inl ⟨rfl, h⟩
  · rw [Function.update_of_ne hne] at h
    exact .inr ⟨hne, h⟩

theorem process_bootstrapped {r r' ip localAddr : String} {replicas : List String} {p : Process}
    (h : (bootstrapped shard raftPort r ip localAddr replicas).process r' = some p) :
    r' = r ∧ .opened ip replicas = p := by
  have hupdate : Function.update (fun _ => none) r (some (Process.opened ip replicas)) r' =
    some p := h
  rcases update_eq_some hupdate with ⟨hr, heq⟩ | ⟨-, hr⟩
  · exact ⟨hr, Option.some.inj heq⟩
  · cases hr

/-- What one event can do: a process starts, goes on or ends, a request arrives or is lost, or a
handler goes on or ends. -/
theorem next_cases (h : next shard raftPort s l = some s') :
    (∃ r ip replicas, l = .start r ip replicas ∧ s.process r = none ∧ s' = { s with
      process := Function.update s.process r (some (.opened ip replicas)) }) ∨
    (∃ r act p p' sent, l = .act r act ∧ s.process r = some p ∧
      p.step shard raftPort r act = some (.goes p' sent) ∧ s' = { s with
        process := Function.update s.process r (some p')
        requests := sent.toList ++ s.requests }) ∨
    (∃ r act p, l = .act r act ∧ s.process r = some p ∧
      p.step shard raftPort r act = some .panics ∧ s' = { s with
        process := Function.update s.process r none, panicked := true }) ∨
    (∃ r, l = .kill r ∧ s' = { s with process := Function.update s.process r none }) ∨
    (∃ q, l = .serve q ∧ q ∈ s.requests ∧ s' = { s with
      requests := s.requests.erase q
      handlers := ⟨q, .called⟩ :: s.handlers }) ∨
    (∃ h a, l = .handle h a ∧ h ∈ s.handlers ∧ s' = { s with
      configuration := (h.step shard raftPort a s.configuration).1
      handlers := (h.step shard raftPort a s.configuration).2.toList ++ s.handlers.erase h }) ∨
    (∃ q, l = .lose q ∧ s' = { s with requests := s.requests.erase q }) ∨
    ∃ h, l = .drop h ∧ s' = { s with handlers := s.handlers.erase h } := by
  cases l with
  | start r ip replicas =>
    simp only [next] at h
    split at h
    · cases h
      exact .inl ⟨r, ip, replicas, rfl, by assumption, rfl⟩
    · cases h
  | act r act =>
    simp only [next] at h
    split at h
    · cases h
    · split at h
      · cases h
      · cases h
        exact .inr (.inl ⟨r, act, _, _, _, rfl, by assumption, by assumption, rfl⟩)
      · cases h
        exact .inr (.inr (.inl ⟨r, act, _, rfl, by assumption, by assumption, rfl⟩))
  | kill r =>
    cases h
    exact .inr (.inr (.inr (.inl ⟨r, rfl, rfl⟩)))
  | serve q =>
    simp only [next] at h
    split at h
    · cases h
      exact .inr (.inr (.inr (.inr (.inl ⟨q, rfl, by assumption, rfl⟩))))
    · cases h
  | handle x a =>
    simp only [next] at h
    split at h
    · cases h
      exact .inr (.inr (.inr (.inr (.inr (.inl ⟨x, a, rfl, by assumption, rfl⟩)))))
    · cases h
  | lose q =>
    cases h
    exact .inr (.inr (.inr (.inr (.inr (.inr (.inl ⟨q, rfl, rfl⟩))))))
  | drop x =>
    cases h
    exact .inr (.inr (.inr (.inr (.inr (.inr (.inr ⟨x, rfl, rfl⟩))))))

/-- The shard `s` with replicas `a` and `b` after some events. -/
def after (ls : List Label) : Members :=
  ((machine "s" 1).run (bootstrapped "s" 1 "a" "a" "a:1" ["a", "b"]) ls).getD
    (bootstrapped "s" 1 "a" "a" "a:1" ["a", "b"])

/-! ### The clients of a process -/

/-- The replicas that `PopulateReplicaClients` has not come to. -/
def toDial : Joiner → List String
  | .dialling todo => todo
  | _ => []

variable (shard raftPort) in
/-- A leader that the action finds is a replica of the mounted configuration, and the process is not
stopped before it has connected to all of them. -/
def Finds (p : Process) : Act → Prop
  | .readLeader leader => leader = "" ∨ ∃ d ∈ p.replicas, raftId d shard raftPort = leader
  | .ask answer => answer.getD "" = "" ∨ ∃ d ∈ p.replicas, raftId d shard raftPort = answer.getD ""
  | .close leader => leader = "" ∨ toDial p.joiner = [] ∧
      ∃ d ∈ p.replicas, raftId d shard raftPort = leader
  | _ => True

variable (shard raftPort) in
/-- The guard `Finds` for the process that acts. -/
def Known (s : Members) : Label → Prop
  | .act r act => ∀ p, s.process r = some p → Finds shard raftPort p act
  | _ => True

variable (shard raftPort) in
/-- The process has the clients that it may call. -/
structure Connected (p : Process) : Prop where
  dialled : ∀ d ∈ p.replicas, d ∈ toDial p.joiner ∨ raftId d shard raftPort ∈ p.clients
  asking : ∀ todo, p.joiner = .asking todo → ∀ d ∈ todo, d ∈ p.replicas
  syncing : ∀ leader, p.joiner = .syncing leader → leader ∈ p.clients
  joining : ∀ leader, p.joiner = .joining leader → leader ∈ p.clients
  leaving : ∀ leader, p.main = .leaving leader → leader ∈ p.clients

section Clients

variable {p p' : Process} {r : String} {act : Act} {sent : Option Request}

theorem connected_opened (ip : String) (replicas : List String) :
    Connected shard raftPort (.opened ip replicas) where
  dialled _ hd := .inl hd
  asking _ h := by cases h
  syncing _ h := by cases h
  joining _ h := by cases h
  leaving _ h := by cases h

/-- Once all are dialled, a replica of the mounted configuration has a client. -/
theorem Connected.client (h : Connected shard raftPort p) (hdial : toDial p.joiner = [])
    {d : String} (hd : d ∈ p.replicas) : raftId d shard raftPort ∈ p.clients := by
  rcases h.dialled d hd with hd | hd
  · rw [hdial] at hd
    cases hd
  · exact hd

theorem Connected.not_panics (h : Connected shard raftPort p) :
    p.step shard raftPort r act ≠ some .panics := by
  intro hstep
  cases act with
  | dial | again | synced | signal | readLeader leader | close leader =>
    simp only [Process.step] at hstep
    split at hstep <;> cases hstep
  | ask answer =>
    simp only [Process.step] at hstep
    split at hstep
    · rename_i d ds hjoiner
      split at hstep
      · cases hstep
      · rename_i hclient
        exact hclient (h.client (by rw [hjoiner]; rfl) (h.asking _ hjoiner d List.mem_cons_self))
    · cases hstep
  | join =>
    simp only [Process.step] at hstep
    split at hstep
    · rename_i leader hjoiner
      split at hstep
      · cases hstep
      · rename_i hclient
        exact hclient (h.joining leader hjoiner)
    · cases hstep
  | demoteVoter =>
    simp only [Process.step] at hstep
    split at hstep
    · rename_i leader hmain
      split at hstep
      · cases hstep
      · rename_i hclient
        exact hclient (h.leaving leader hmain)
    · cases hstep

/-- A leader that is found has a client, or none is found and the next replicas are asked. -/
theorem Connected.look (h : Connected shard raftPort p) (hdial : toDial p.joiner = [])
    {todo : List String} (htodo : ∀ d ∈ todo, d ∈ p.replicas) {leader : String}
    (hleader : leader = "" ∨ ∃ d ∈ p.replicas, raftId d shard raftPort = leader) :
    Connected shard raftPort
      { p with joiner := if leader = "" then .asking todo else .syncing leader } := by
  split_ifs with hempty
  · refine ⟨fun d hd => .inr (h.client hdial hd), fun _ hj => ?_, fun _ hj => (by cases hj),
      fun _ hj => (by cases hj), h.leaving⟩
    cases hj
    exact htodo
  · refine ⟨fun d hd => .inr (h.client hdial hd), fun _ hj => (by cases hj), fun _ hj => ?_,
      fun _ hj => (by cases hj), h.leaving⟩
    cases hj
    obtain he | ⟨d, hd, rfl⟩ := hleader
    · exact absurd he hempty
    · exact h.client hdial hd

theorem Connected.step (h : Connected shard raftPort p) (hact : Finds shard raftPort p act)
    (hstep : p.step shard raftPort r act = some (.goes p' sent)) :
    Connected shard raftPort p' := by
  cases act with
  | dial =>
    simp only [Process.step] at hstep
    split at hstep
    · rename_i d ds hjoiner
      obtain ⟨rfl, rfl⟩ := Turn.goes.inj (Option.some.inj hstep)
      refine ⟨fun d' hd' => ?_, fun _ hj => (by cases hj), fun _ hj => (by cases hj),
        fun _ hj => (by cases hj), fun l hl => List.mem_cons_of_mem _ (h.leaving l hl)⟩
      rcases h.dialled d' hd' with hd' | hd'
      · rw [hjoiner] at hd'
        rcases List.mem_cons.1 hd' with rfl | hd'
        · exact .inr List.mem_cons_self
        · exact .inl hd'
      · exact .inr (List.mem_cons_of_mem _ hd')
    · cases hstep
  | readLeader leader =>
    simp only [Process.step] at hstep
    split at hstep
    · rename_i hjoiner
      obtain ⟨rfl, rfl⟩ := Turn.goes.inj (Option.some.inj hstep)
      exact h.look (by rw [hjoiner]; rfl) (fun _ hd => hd) hact
    · cases hstep
  | ask answer =>
    simp only [Process.step] at hstep
    split at hstep
    · rename_i d ds hjoiner
      split at hstep
      · obtain ⟨rfl, rfl⟩ := Turn.goes.inj (Option.some.inj hstep)
        exact h.look (by rw [hjoiner]; rfl)
          (fun d' hd' => h.asking _ hjoiner d' (List.mem_cons_of_mem d hd')) hact
      · cases hstep
    · cases hstep
  | again =>
    simp only [Process.step] at hstep
    split at hstep
    · rename_i hjoiner
      obtain ⟨rfl, rfl⟩ := Turn.goes.inj (Option.some.inj hstep)
      exact h.look (by rw [hjoiner]; rfl) (fun _ hd => hd) (.inl rfl)
    · cases hstep
  | synced =>
    simp only [Process.step] at hstep
    split at hstep
    · rename_i leader hjoiner
      obtain ⟨rfl, rfl⟩ := Turn.goes.inj (Option.some.inj hstep)
      refine ⟨fun d hd => .inr (h.client (by rw [hjoiner]; rfl) hd), fun _ hj => (by cases hj),
        fun _ hj => (by cases hj), fun _ hj => ?_, h.leaving⟩
      cases hj
      exact h.syncing leader hjoiner
    · cases hstep
  | join =>
    simp only [Process.step] at hstep
    split at hstep
    · rename_i leader hjoiner
      split at hstep
      · obtain ⟨rfl, rfl⟩ := Turn.goes.inj (Option.some.inj hstep)
        exact ⟨fun d hd => .inr (h.client (by rw [hjoiner]; rfl) hd), fun _ hj => (by cases hj),
          fun _ hj => (by cases hj), fun _ hj => (by cases hj), h.leaving⟩
      · cases hstep
    · cases hstep
  | signal =>
    simp only [Process.step] at hstep
    split at hstep
    · obtain ⟨rfl, rfl⟩ := Turn.goes.inj (Option.some.inj hstep)
      exact ⟨h.dialled, h.asking, h.syncing, h.joining, fun _ hl => (by cases hl)⟩
    · cases hstep
  | close leader =>
    simp only [Process.step] at hstep
    split at hstep
    · obtain ⟨rfl, rfl⟩ := Turn.goes.inj (Option.some.inj hstep)
      refine ⟨h.dialled, h.asking, h.syncing, h.joining, fun l hl => ?_⟩
      dsimp only at hl
      split_ifs at hl with hempty
      cases hl
      obtain he | ⟨hdial, d, hd, rfl⟩ := hact
      · exact absurd he hempty
      · exact h.client hdial hd
    · cases hstep
  | demoteVoter =>
    simp only [Process.step] at hstep
    split at hstep
    · split at hstep
      · obtain ⟨rfl, rfl⟩ := Turn.goes.inj (Option.some.inj hstep)
        exact ⟨h.dialled, h.asking, h.syncing, h.joining, fun _ hl => (by cases hl)⟩
      · cases hstep
    · cases hstep

end Clients

/-- **No client is missing.**  Take any run of a shard in which the leaders that processes find are
replicas of the configuration that they have mounted, and no process reads the leader for its
shutdown before it has connected to all of these: then `JoinCluster` and `main` never call a client
that `replicaClients` does not hold, in whatever order their goroutines run. -/
theorem not_panicked (r ip localAddr : String) (replicas : List String)
    (hs : (machine shard raftPort).ReachedBy (Known shard raftPort)
      (bootstrapped shard raftPort r ip localAddr replicas) s) : s.panicked = false := by
  refine (hs.invariant (I := fun s => s.panicked = false ∧
    ∀ r p, s.process r = some p → Connected shard raftPort p) ⟨rfl, ?_⟩ ?_).1
  · intro r' p hp
    obtain ⟨-, rfl⟩ := process_bootstrapped hp
    exact connected_opened ip replicas
  · intro s l s' ⟨hpanicked, hall⟩ hl hst
    obtain ⟨r, ip, replicas, rfl, -, rfl⟩ | ⟨r, act, p, p', sent, rfl, hp, hstep, rfl⟩ |
      ⟨r, act, p, rfl, hp, hstep, rfl⟩ | ⟨r, rfl, rfl⟩ | ⟨q, rfl, hq, rfl⟩ |
      ⟨h, a, rfl, hh, rfl⟩ | ⟨q, rfl, rfl⟩ | ⟨h, rfl, rfl⟩ := next_cases hst
    · refine ⟨hpanicked, fun r' p hp => ?_⟩
      rcases update_eq_some hp with ⟨-, heq⟩ | ⟨-, hr⟩
      · cases heq
        exact connected_opened ip replicas
      · exact hall r' p hr
    · refine ⟨hpanicked, fun r' p'' hp'' => ?_⟩
      rcases update_eq_some hp'' with ⟨-, heq⟩ | ⟨-, hr⟩
      · cases heq
        exact (hall r p hp).step (hl p hp) hstep
      · exact hall r' p'' hr
    · exact absurd hstep (hall r p hp).not_panics
    · refine ⟨hpanicked, fun r' p hp => ?_⟩
      rcases update_eq_some hp with ⟨-, heq⟩ | ⟨-, hr⟩
      · cases heq
      · exact hall r' p hr
    · exact ⟨hpanicked, hall⟩
    · exact ⟨hpanicked, hall⟩
    · exact ⟨hpanicked, hall⟩
    · exact ⟨hpanicked, hall⟩

/-- The first replica finds itself as the leader. -/
theorem not_panicked_first :
    (after [.act "a" .dial, .act "a" .dial, .act "a" (.readLeader "a.s:1"), .act "a" .synced,
      .act "a" .join]).panicked = false := by
  have hs : (machine "s" 1).ReachedBy (Known "s" 1) (bootstrapped "s" 1 "a" "a" "a:1" ["a", "b"])
      (after [.act "a" .dial, .act "a" .dial, .act "a" (.readLeader "a.s:1"), .act "a" .synced,
        .act "a" .join]) := by
    refine .head (l := .act "a" .dial) (fun _ _ => trivial) rfl <|
      .head (l := .act "a" .dial) (fun _ _ => trivial) rfl <|
      .head (l := .act "a" (.readLeader "a.s:1")) (fun p hp => ?_) rfl <|
      .head (l := .act "a" .synced) (fun _ _ => trivial) rfl <|
      .head (l := .act "a" .join) (fun _ _ => trivial) rfl .start
    cases hp
    exact .inr ⟨"a", List.mem_cons_self, rfl⟩
  exact not_panicked "a" "a" "a:1" ["a", "b"] hs

end Members

end Raft

end ShardedKvs
