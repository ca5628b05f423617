import ShardedKvs.Program.Basic
import ShardedKvs.Raft.Basic

/-!
# Joining a Raft group

A replica that has started asks the leader of its shard to add it to the group.  `KVStore.Join`
walks the servers of the configuration, removes those that have the ID or the address of the replica
but not both, and adds the replica as a voter.  It returns nil in three more cases: on a replica
that is not the leader, on one that has lost the leadership by the time of the add, and when it
meets a server with both the ID and the address, whatever the suffrage of that server is.  A replica
that shuts down is demoted, so it comes back to exactly such a server.

* `Calls` : what Raft answers to the calls of one `Join`.
* `join`, `demoteVoter` : the two changes of the configuration that replicas ask for.
* `Joined` : the replica is a voter, and all others are as before.
* `join_iff` : **a `Join` that returns nil has made the replica a voter exactly when it was a voter
  already, or was not there at all and the leadership was not lost**.
-/

namespace ShardedKvs

namespace Raft

/-- What Raft answers to the calls of one `Join`: an error, or none.  Each of them is the state of
the leadership at the moment of the call, so it may be lost between any two. -/
structure Calls where
  /-- `k.raft.State() == raft.Leader` at the start. -/
  leader : Bool
  getConfiguration : Option String
  /-- The answer to the removal of each ID. -/
  removeServer : String → Option String
  /-- `r.State() == raft.Leader` in `JoinReplica`. -/
  leaderAtAdd : Bool
  addVoter : Option String

/-- The replica leads throughout, and all calls succeed. -/
def Calls.ok : Calls := ⟨true, none, fun _ => none, true, none⟩

open Program

/-- A call that changes the configuration, or fails without an effect.  Raft also refuses a change
that it does not allow. -/
def change (err : Option String) (message : String)
    (effect : Configuration → Option Configuration) : Program String Configuration Unit := fun c =>
  match err, effect c with
  | some e, _ => .error (message ++ e) c
  | none, none => .error (message ++ "found duplicate address in configuration") c
  | none, some c' => .ok () c'

/-- `k.raft.GetConfiguration()`. -/
def getConfiguration (a : Calls) : Program String Configuration (List Server) := fun c =>
  match a.getConfiguration with
  | some e => .error ("failed to get raft configuration: " ++ e) c
  | none => .ok c.servers c

/-- The loop of `Join` over the servers; `true` when it meets the replica itself and returns. -/
def removeClashes (a : Calls) (id address : String) :
    List Server → Program String Configuration Bool
  | [] => pure false
  | m :: ms =>
    if m.id = id ∨ m.address = address then
      if m.id = id ∧ m.address = address then pure true
      else do
        change (a.removeServer m.id) ("failed to remove existing replica " ++ id ++ ": ")
          fun c => some (c.removeServer m.id)
        removeClashes a id address ms
    else removeClashes a id address ms

/-- `JoinReplica`. -/
def joinReplica (a : Calls) (id address : String) : Program String Configuration Unit :=
  if !a.leaderAtAdd then pure ()
  else change a.addVoter "could not add voter: " fun c => c.addVoter id address

/-- `KVStore.Join`, with the ID and the address of the replica. -/
def joinAs (a : Calls) (id address : String) : Program String Configuration Unit :=
  if !a.leader then pure ()
  else do
    let servers ← getConfiguration a
    let present ← removeClashes a id address servers
    if present then pure () else joinReplica a id address

/-- `KVStore.Join`. -/
def join (a : Calls) (ip : String) (raftPort : ℕ) (shard replica : String) :
    Program String Configuration Unit :=
  joinAs a (raftId replica shard raftPort) (raftAddress ip raftPort)

/-- `KVStore.DemoteVoter`. -/
def demoteVoter (leader : Bool) (err : Option String) (raftPort : ℕ) (shard replica : String) :
    Program String Configuration Unit :=
  if !leader then pure ()
  else change err "" fun c => some (c.demoteVoter (raftId replica shard raftPort))

/-- Exactly one server has the ID, exactly one the address, it is the same one, and it is a voter;
every other server is as before. -/
structure Joined (id address : String) (c c' : Configuration) : Prop where
  only : ∃ m : Server, m.suffrage = .voter ∧ (c'.servers.filter fun x => x.id = id) = [m] ∧
    (c'.servers.filter fun x => x.address = address) = [m]
  others : ∀ m : Server, m.id ≠ id → m.address ≠ address → (m ∈ c'.servers ↔ m ∈ c.servers)

/-! ### Servers and their names -/

/-- A value of a field that no two elements share picks out one of them. -/
theorem filter_eq_singleton {α β : Type} [DecidableEq β] {f : α → β} {xs : List α}
    (h : (xs.map f).Nodup) {m : α} (hm : m ∈ xs) : (xs.filter fun x => f x = f m) = [m] := by
  induction xs with
  | nil => cases hm
  | cons x xs ih =>
    obtain ⟨hx, hxs⟩ := List.nodup_cons.1 h
    rcases List.mem_cons.1 hm with rfl | hmem
    · rw [List.filter_cons_of_pos (by simp), List.filter_eq_nil_iff.2]
      intro y hy hym
      exact hx (of_decide_eq_true hym ▸ List.mem_map_of_mem hy)
    · have hne : f x ≠ f m := fun he => hx (he ▸ List.mem_map_of_mem hmem)
      rw [List.filter_cons_of_neg (by simpa using hne), ih hxs hmem]

namespace Configuration

variable {c : Configuration} {m m' : Server}

theorem eq_of_id (hm : m ∈ c.servers) (hm' : m' ∈ c.servers) (h : m.id = m'.id) : m = m' :=
  List.inj_on_of_nodup_map c.ids hm hm' h

end Configuration

variable {a : Calls} {id address : String} {c c' : Configuration}

/-- A configuration that lists the replica as a voter lists no other server with its ID or its
address. -/
theorem joined_iff (hothers : ∀ m : Server, m.id ≠ id → m.address ≠ address →
      (m ∈ c'.servers ↔ m ∈ c.servers)) :
    Joined id address c c' ↔ ⟨.voter, id, address⟩ ∈ c'.servers := by
  constructor
  · rintro ⟨⟨m, hvoter, hid, haddress⟩, -⟩
    have h₁ : m ∈ c'.servers.filter fun x => x.id = id := hid ▸ List.mem_singleton_self m
    have h₂ : m ∈ c'.servers.filter fun x => x.address = address :=
      haddress ▸ List.mem_singleton_self m
    obtain ⟨hmem, hm⟩ := List.mem_filter.1 h₁
    have hm' := (List.mem_filter.1 h₂).2
    rw [← of_decide_eq_true hm, ← of_decide_eq_true hm', ← hvoter]
    exact hmem
  · intro hmem
    exact ⟨⟨⟨.voter, id, address⟩, rfl, filter_eq_singleton c'.ids hmem,
      filter_eq_singleton c'.addresses hmem⟩, hothers⟩

/-! ### The loop -/

theorem change_eq_ok {err : Option String} {message : String}
    {effect : Configuration → Option Configuration}
    (h : change err message effect c = .ok () c') : effect c = some c' := by
  unfold change at h
  split at h
  · cases h
  · cases h
  · cases h
    assumption

/-- When the replica is listed, nobody else has its ID or its address, and the loop removes
nothing. -/
theorem removeClashes_of_mem {ms : List Server} (hids : (ms.map Server.id).Nodup)
    (haddresses : (ms.map Server.address).Nodup) {m : Server} (hm : m ∈ ms) (hid : m.id = id)
    (haddress : m.address = address) : removeClashes a id address ms c = .ok true c := by
  induction ms with
  | nil => cases hm
  | cons x ms ih =>
    obtain ⟨hx, hids⟩ := List.nodup_cons.1 hids
    obtain ⟨hx', haddresses⟩ := List.nodup_cons.1 haddresses
    unfold removeClashes
    rcases List.mem_cons.1 hm with rfl | hmem
    · rw [if_pos (.inl hid), if_pos ⟨hid, haddress⟩]
      rfl
    · have hne : ¬ (x.id = id ∨ x.address = address) := by
        rintro (he | he)
        · exact hx (he.trans hid.symm ▸ List.mem_map_of_mem hmem)
        · exact hx' (he.trans haddress.symm ▸ List.mem_map_of_mem hmem)
      rw [if_neg hne]
      exact ih hids haddresses hmem

/-- When the replica is not listed, the loop removes the servers with its ID or its address. -/
theorem removeClashes_of_not_mem {ms : List Server} {b : Bool}
    (hno : ∀ m ∈ ms, ¬ (m.id = id ∧ m.address = address))
    (h : removeClashes a id address ms c = .ok b c') :
    b = false ∧ ∀ x, x ∈ c'.servers ↔
      x ∈ c.servers ∧ ∀ m ∈ ms, m.id = id ∨ m.address = address → x.id ≠ m.id := by
  induction ms generalizing c with
  | nil =>
    cases h
    exact ⟨rfl, fun x => by simp⟩
  | cons m ms ih =>
    have hno' : ∀ m ∈ ms, ¬ (m.id = id ∧ m.address = address) :=
      fun m hm => hno m (List.mem_cons_of_mem _ hm)
    unfold removeClashes at h
    split_ifs at h with hclash hexact
    · exact absurd hexact (hno m List.mem_cons_self)
    · -- the server is removed, and the loop goes on with what is left
      obtain ⟨_, c₁, h₁, h₂⟩ := bind_eq_ok_iff.1 h
      cases change_eq_ok h₁
      obtain ⟨hb, hmem⟩ := ih hno' h₂
      refine ⟨hb, fun x => ?_⟩
      rw [hmem, Configuration.removeServer, List.mem_filter, List.forall_mem_cons]
      simp only [decide_eq_true_eq]
      tauto
    · obtain ⟨hb, hmem⟩ := ih hno' h
      refine ⟨hb, fun x => ?_⟩
      rw [hmem, List.forall_mem_cons]
      tauto

/-- The loop over all servers of the configuration leaves those that have neither the ID nor the
address. -/
theorem mem_removeClashes {b : Bool}
    (hno : ∀ m ∈ c.servers, ¬ (m.id = id ∧ m.address = address))
    (h : removeClashes a id address c.servers c = .ok b c') :
    b = false ∧ ∀ x, x ∈ c'.servers ↔ x ∈ c.servers ∧ x.id ≠ id ∧ x.address ≠ address := by
  obtain ⟨hb, hmem⟩ := removeClashes_of_not_mem hno h
  refine ⟨hb, fun x => ?_⟩
  rw [hmem]
  constructor
  · rintro ⟨hx, hfree⟩
    exact ⟨hx, fun he => hfree x hx (.inl he) rfl, fun he => hfree x hx (.inr he) rfl⟩
  · rintro ⟨hx, hid, haddress⟩
    refine ⟨hx, fun m hm hclash he => ?_⟩
    -- a server with the ID of one that is removed is that server
    cases Configuration.eq_of_id hx hm he
    exact hclash.elim hid haddress

/-! ### `Join` -/

theorem mem_addVoter (hid : ∀ m ∈ c.servers, m.id ≠ id) (h : c.addVoter id address = some c')
    (x : Server) : x ∈ c'.servers ↔ x ∈ c.servers ∨ x = ⟨.voter, id, address⟩ := by
  unfold Configuration.addVoter at h
  split at h
  · cases h
    have hnot : id ∉ c.servers.map Server.id := by
      intro hmem
      obtain ⟨m, hm, he⟩ := List.mem_map.1 hmem
      exact hid m hm he
    simp only [Configuration.votersWith, if_neg hnot, List.mem_append, List.mem_singleton]
  · cases h

theorem joined_self : Joined id address c c ↔ ⟨.voter, id, address⟩ ∈ c.servers :=
  joined_iff fun _ _ _ => Iff.rfl

/-- A `Join` that meets the replica itself returns at once. -/
theorem joinAs_of_mem {m : Server} (hm : m ∈ c.servers) (hid : m.id = id)
    (haddress : m.address = address) (h : joinAs a id address c = .ok () c') : c' = c := by
  unfold joinAs at h
  split_ifs at h with hleader
  · cases h
    rfl
  · obtain ⟨servers, c₁, h₁, h⟩ := bind_eq_ok_iff.1 h
    unfold getConfiguration at h₁
    split at h₁ <;> cases h₁
    obtain ⟨present, c₂, h₂, h⟩ := bind_eq_ok_iff.1 h
    rw [removeClashes_of_mem c.ids c.addresses hm hid haddress] at h₂
    cases h₂
    cases h
    rfl

/-- What a `Join` does that does not meet the replica: nothing on a follower; otherwise the servers
with its ID or its address go, and it comes in if the leadership has lasted. -/
theorem joinAs_of_not_mem (hno : ∀ m ∈ c.servers, ¬ (m.id = id ∧ m.address = address))
    (h : joinAs a id address c = .ok () c') (x : Server) :
    x ∈ c'.servers ↔ if a.leader then
      (x ∈ c.servers ∧ x.id ≠ id ∧ x.address ≠ address) ∨
        (a.leaderAtAdd = true ∧ x = ⟨.voter, id, address⟩)
      else x ∈ c.servers := by
  unfold joinAs at h
  cases hleader : a.leader with
  | false =>
    rw [hleader] at h
    cases h
    rfl
  | true =>
    rw [hleader] at h
    obtain ⟨servers, c₁, h₁, h⟩ := bind_eq_ok_iff.1 h
    unfold getConfiguration at h₁
    split at h₁ <;> cases h₁
    obtain ⟨present, c₂, h₂, h⟩ := bind_eq_ok_iff.1 h
    obtain ⟨rfl, hmem⟩ := mem_removeClashes hno h₂
    unfold joinReplica at h
    cases hadd : a.leaderAtAdd with
    | false =>
      rw [hadd] at h
      cases h
      simp [hmem]
    | true =>
      rw [hadd] at h
      have hid : ∀ m ∈ c₂.servers, m.id ≠ id := fun m hm => ((hmem m).1 hm).2.1
      have hadd' : change a.addVoter "could not add voter: " (fun c => c.addVoter id address) c₂ =
          .ok () c' := h
      rw [mem_addVoter hid (change_eq_ok hadd'), hmem]
      simp

/-- **When a `Join` that returns nil has made the replica a voter.**  For every configuration, every
joining replica and every loss of leadership between two calls: if `KVStore.Join` returns nil, then
the replica is the only server with its ID and the only one with its address, it is a voter and all
other servers are unchanged, exactly when it was listed with both as a voter before, or not listed
with both, and the replica that served the call was the leader at its start and at the add. -/
theorem join_iff (a : Calls) (ip : String) (raftPort : ℕ) (shard replica : String)
    (c c' : Configuration) (h : join a ip raftPort shard replica c = .ok () c') :
    Joined (raftId replica shard raftPort) (raftAddress ip raftPort) c c' ↔
      ⟨.voter, raftId replica shard raftPort, raftAddress ip raftPort⟩ ∈ c.servers ∨
        (∀ m ∈ c.servers, ¬ (m.id = raftId replica shard raftPort ∧
          m.address = raftAddress ip raftPort)) ∧ a.leader = true ∧ a.leaderAtAdd = true := by
  unfold join at h
  generalize raftId replica shard raftPort = id at h ⊢
  generalize raftAddress ip raftPort = address at h ⊢
  by_cases hex : ∃ m ∈ c.servers, m.id = id ∧ m.address = address
  · obtain ⟨m, hm, hid, haddress⟩ := hex
    rw [joinAs_of_mem hm hid haddress h, joined_self]
    constructor
    · exact .inl
    · rintro (hvoter | ⟨hno, -⟩)
      · exact hvoter
      · exact absurd ⟨hid, haddress⟩ (hno m hm)
  · have hno : ∀ m ∈ c.servers, ¬ (m.id = id ∧ m.address = address) :=
      fun m hm he => hex ⟨m, hm, he⟩
    have hmem := joinAs_of_not_mem hno h
    have hvoter : ⟨.voter, id, address⟩ ∉ c.servers := fun hm => hno _ hm ⟨rfl, rfl⟩
    rw [joined_iff, hmem, or_iff_right hvoter, and_iff_right hno]
    · cases a.leader <;> simp [hvoter]
    · intro m hid haddress
      have hne : m ≠ ⟨.voter, id, address⟩ := fun he => hid (congrArg Server.id he)
      rw [hmem]
      cases a.leader <;> simp [hid, haddress, hne]

/-- A replica comes back with a new address, which an old server of another replica still has: both
go, and the replica is a voter. -/
theorem join_iff_clash :
    ∃ c' : Configuration,
      join .ok "10.0.0.3" 8082 "kv-shard-0" "kv-shard-0-replica-1"
        ⟨[⟨.voter, "kv-shard-0-replica-0.kv-shard-0:8082", "10.0.0.1:8082"⟩,
          ⟨.nonvoter, "kv-shard-0-replica-1.kv-shard-0:8082", "10.0.0.2:8082"⟩,
          ⟨.voter, "kv-shard-0-replica-2.kv-shard-0:8082", "10.0.0.3:8082"⟩],
          by decide, by decide⟩ = .ok () c' ∧
      Joined "kv-shard-0-replica-1.kv-shard-0:8082" "10.0.0.3:8082"
        ⟨[⟨.voter, "kv-shard-0-replica-0.kv-shard-0:8082", "10.0.0.1:8082"⟩,
          ⟨.nonvoter, "kv-shard-0-replica-1.kv-shard-0:8082", "10.0.0.2:8082"⟩,
          ⟨.voter, "kv-shard-0-replica-2.kv-shard-0:8082", "10.0.0.3:8082"⟩],
          by decide, by decide⟩ c' :=
  ⟨_, rfl, (join_iff .ok "10.0.0.3" 8082 "kv-shard-0" "kv-shard-0-replica-1" _ _ rfl).2
    (.inr ⟨by decide, rfl, rfl⟩)⟩

/-- The group of a shard after its second replica has joined and has been shut down. -/
def demoted : Configuration :=
  final (do
    join .ok "10.0.0.2" 8082 "kv-shard-0" "kv-shard-0-replica-1"
    demoteVoter true none 8082 "kv-shard-0" "kv-shard-0-replica-1")
    (.single "kv-shard-0-replica-0.kv-shard-0:8082" "10.0.0.1:8082")

/-- **A replica that comes back after its shutdown stays a non-voter.**  It was demoted, its server
is still listed with the same ID and address, and `Join` returns nil when it meets that server. -/
theorem not_joined :
    ¬ ∀ (a : Calls) (c c' : Configuration),
      join a "10.0.0.2" 8082 "kv-shard-0" "kv-shard-0-replica-1" c = .ok () c' →
      Joined "kv-shard-0-replica-1.kv-shard-0:8082" "10.0.0.2:8082" c c' := by
  intro h
  have hservers : demoted.servers =
      [⟨.voter, "kv-shard-0-replica-0.kv-shard-0:8082", "10.0.0.1:8082"⟩,
        ⟨.nonvoter, "kv-shard-0-replica-1.kv-shard-0:8082", "10.0.0.2:8082"⟩] := by decide
  have hjoined := joined_self.1 (h .ok demoted demoted rfl)
  rw [hservers] at hjoined
  exact absurd hjoined (by decide)

end Raft

end ShardedKvs
