import ShardedKvs.Machine.Rank
import ShardedKvs.Raft.Members

/-!
# Replicas that come back at their addresses

`KVStore.Join` returns as soon as it meets the replica in the configuration, whatever its suffrage,
and a replica is demoted when it shuts down.  What that means for a group depends on the addresses
with which its replicas come back; here every replica keeps its address.

* `Handled` : everything that one step of a handler can do to the configuration.
* `Members.listed_stays` : **when every replica keeps its address and its requests are served one
  at a time, a server that is listed stays listed, and all that can ever happen to it is that it
  becomes a non-voter**.  A `Join` that has read the configuration and is overtaken by another one
  of its replica may still add a voter, so the second condition is needed.
* `Members.voters_lost` : **every demotion that is served then costs the group one voter for good**.
-/

namespace ShardedKvs

namespace Raft

variable {shard : String} {raftPort : ℕ}

theorem raftId_injective : Function.Injective fun r => raftId r shard raftPort := by
  intro r r' h
  simp only [raftId, String.append_left_inj] at h
  exact h

theorem raftAddress_injective : Function.Injective fun ip => raftAddress ip raftPort := by
  intro ip ip' h
  simp only [raftAddress, String.append_left_inj] at h
  exact h

/-! ### The calls of Raft -/

variable {id address : String} {c c' c'' : Configuration}

theorem mem_of_mem_removeServer {m : Server} (hm : m ∈ (c.removeServer id).servers) :
    m ∈ c.servers := (List.mem_filter.1 hm).1

theorem mem_of_mem_addVoter {m : Server} (h : c.addVoter id address = some c')
    (hm : m ∈ c'.servers) : m ∈ c.servers ∨ m = ⟨.voter, id, address⟩ := by
  unfold Configuration.addVoter at h
  split_ifs at h
  cases h
  unfold Configuration.votersWith at hm
  dsimp only at hm
  split_ifs at hm
  · obtain ⟨m', hm', rfl⟩ := List.mem_map.1 hm
    split_ifs
    · exact .inr rfl
    · exact .inl hm'
  · exact (List.mem_append.1 hm).imp_right List.mem_singleton.1

theorem mem_addVoter_of_ne {m : Server} (h : c.addVoter id address = some c')
    (hm : m ∈ c.servers) (hid : m.id ≠ id) : m ∈ c'.servers := by
  unfold Configuration.addVoter at h
  split_ifs at h
  cases h
  unfold Configuration.votersWith
  dsimp only
  split_ifs
  · exact List.mem_map.2 ⟨m, hm, if_neg hid⟩
  · exact List.mem_append_left _ hm

theorem mem_demoteVoter {x : Server} : x ∈ (c.demoteVoter id).servers ↔
    ∃ m ∈ c.servers, x = if m.id = id then { m with suffrage := .nonvoter } else m := by
  unfold Configuration.demoteVoter
  simp only [List.mem_map, eq_comm]

theorem mem_demoteVoter_of_ne {m : Server} (hm : m ∈ c.servers) (hid : m.id ≠ id) :
    m ∈ (c.demoteVoter id).servers := mem_demoteVoter.2 ⟨m, hm, (if_neg hid).symm⟩

/-- A demotion leaves the IDs and the addresses. -/
theorem exists_of_mem_demoteVoter {x : Server} (hx : x ∈ (c.demoteVoter id).servers) :
    ∃ m ∈ c.servers, m.id = x.id ∧ m.address = x.address := by
  obtain ⟨m, hm, rfl⟩ := mem_demoteVoter.1 hx
  exact ⟨m, hm, by split_ifs <;> rfl, by split_ifs <;> rfl⟩

/-! ### One step of a handler -/

variable (shard raftPort) in
/-- Everything that one step of a handler can do. -/
inductive Handled (c : Configuration) : Handler → Configuration → Option Handler → Prop where
  | reads (r ip : String) :
      Handled c ⟨.join r ip, .called⟩ c (some ⟨.join r ip, .walking c.servers⟩)
  | passes {r ip : String} {m : Server} {ms : List Server} (hid : m.id ≠ raftId r shard raftPort) :
      Handled c ⟨.join r ip, .walking (m :: ms)⟩ c (some ⟨.join r ip, .walking ms⟩)
  | removes {r ip : String} {m : Server} {ms : List Server} {h' : Option Handler}
      (hclash : m.id = raftId r shard raftPort ∨ m.address = raftAddress ip raftPort)
      (hexact : ¬ (m.id = raftId r shard raftPort ∧ m.address = raftAddress ip raftPort))
      (hrest : ∀ x ∈ h', x = ⟨.join r ip, .walking ms⟩) :
      Handled c ⟨.join r ip, .walking (m :: ms)⟩ (c.removeServer m.id) h'
  | adds {r ip : String} {c' : Configuration}
      (hadd : c.addVoter (raftId r shard raftPort) (raftAddress ip raftPort) = some c') :
      Handled c ⟨.join r ip, .walking []⟩ c' none
  | demotes (r ip : String) (stage : Stage) :
      Handled c ⟨.demoteVoter r ip, stage⟩ (c.demoteVoter (raftId r shard raftPort)) none
  | ends (h : Handler) : Handled c h c none

theorem Handler.handled (a : Answer) (c : Configuration) (h : Handler) :
    Handled shard raftPort c h (h.step shard raftPort a c).1 (h.step shard raftPort a c).2 := by
  obtain ⟨q, stage⟩ := h
  cases q with
  | demoteVoter r ip =>
    cases a with
    | ok => exact .demotes r ip stage
    | failed done =>
      cases done
      · exact .ends _
      · exact .demotes r ip stage
    | follower => exact .ends _
  | join r ip =>
    cases stage with
    | called =>
      cases a with
      | ok => exact .reads r ip
      | failed done => exact .ends _
      | follower => exact .ends _
    | walking ms =>
      cases ms with
      | nil =>
        have hadd : Handled shard raftPort c ⟨.join r ip, .walking []⟩
            ((c.addVoter (raftId r shard raftPort) (raftAddress ip raftPort)).getD c) none := by
          cases hc : c.addVoter (raftId r shard raftPort) (raftAddress ip raftPort) with
          | none => exact .ends _
          | some c' => exact .adds hc
        cases a with
        | ok => exact hadd
        | failed done =>
          cases done
          · exact .ends _
          · exact hadd
        | follower => exact .ends _
      | cons m ms =>
        simp only [Handler.step]
        split_ifs with hclash hexact
        · exact .ends _
        · cases a with
          | ok => exact .removes hclash hexact fun x hx => (Option.some.inj hx).symm
          | failed done =>
            cases done
            · exact .ends _
            · exact .removes hclash hexact fun x hx => (by cases hx)
          | follower => exact .ends _
        · exact .passes fun hid => hclash (.inl hid)

theorem Handled.request {h x : Handler} {h' : Option Handler}
    (hst : Handled shard raftPort c h c' h') (hx : x ∈ h') : x.request = h.request := by
  cases hst with
  | reads | passes =>
    cases hx
    rfl
  | removes _ _ hrest => rw [hrest x hx]
  | adds => cases hx
  | demotes => cases hx
  | ends => cases hx

/-- A server that is listed after a step was listed before, with another suffrage perhaps, or is the
one that the handler has added at its end. -/
theorem Handled.server {h : Handler} {h' : Option Handler} {m : Server}
    (hst : Handled shard raftPort c h c' h') (hm : m ∈ c'.servers) :
    (∃ m' ∈ c.servers, m'.id = m.id ∧ m'.address = m.address) ∨
      ∃ r ip, h.request = .join r ip ∧ h' = none ∧
        m = ⟨.voter, raftId r shard raftPort, raftAddress ip raftPort⟩ := by
  cases hst with
  | reads => exact .inl ⟨m, hm, rfl, rfl⟩
  | passes => exact .inl ⟨m, hm, rfl, rfl⟩
  | removes => exact .inl ⟨m, mem_of_mem_removeServer hm, rfl, rfl⟩
  | @adds r ip _ hadd =>
    rcases mem_of_mem_addVoter hadd hm with hm | rfl
    · exact .inl ⟨m, hm, rfl, rfl⟩
    · exact .inr ⟨r, ip, rfl, rfl, rfl⟩
  | demotes => exact .inl (exists_of_mem_demoteVoter hm)
  | ends => exact .inl ⟨m, hm, rfl, rfl⟩

/-! ### One step of a process -/

/-- What an action of the process of `r` keeps, and what it can send. -/
structure Process.Goes (r : String) (p p' : Process) (sent : Option Request) : Prop where
  address : p'.address = p.address
  unsent : p'.joiner.unsent = true → p.joiner.unsent = true
  join : ∀ q ip, sent = some q → q.joinAddress = some ip →
    q.replica = r ∧ ip = p.address ∧ p.joiner.unsent = true ∧ p'.joiner.unsent = false

theorem Process.goes_of_step {r : String} {p p' : Process} {act : Act} {sent : Option Request}
    (h : p.step shard raftPort r act = some (.goes p' sent)) : p.Goes r p' sent := by
  cases act with
  | dial | again | synced | signal | readLeader leader | close leader =>
    simp only [Process.step] at h
    split at h
    · obtain ⟨rfl, rfl⟩ := Turn.goes.inj (Option.some.inj h)
      exact ⟨rfl, fun hp' => by simp_all [Joiner.unsent], fun q ip hq => by cases hq⟩
    · cases h
  | ask answer =>
    simp only [Process.step] at h
    split at h
    · split at h
      · obtain ⟨rfl, rfl⟩ := Turn.goes.inj (Option.some.inj h)
        exact ⟨rfl, fun hp' => by simp_all [Joiner.unsent], fun q ip hq => by cases hq⟩
      · cases h
    · cases h
  | join =>
    simp only [Process.step] at h
    split at h
    · rename_i leader hjoiner
      split at h
      · obtain ⟨rfl, rfl⟩ := Turn.goes.inj (Option.some.inj h)
        refine ⟨rfl, fun hp' => (by cases hp'), fun q ip hq hip => ?_⟩
        cases hq
        cases hip
        exact ⟨rfl, rfl, by rw [hjoiner]; rfl, rfl⟩
      · cases h
    · cases h
  | demoteVoter =>
    simp only [Process.step] at h
    split at h
    · split at h
      · obtain ⟨rfl, rfl⟩ := Turn.goes.inj (Option.some.inj h)
        refine ⟨rfl, fun hp' => hp', fun q ip hq hip => ?_⟩
        cases hq
        cases hip
      · cases h
    · cases h

namespace Members

variable {s s' : Members} {l : Label}

/-- Only a handler changes the configuration. -/
theorem configuration_next (hst : Members.next shard raftPort s l = some s') :
    s'.configuration = s.configuration ∨ ∃ x a c' x', l = .handle x a ∧ x ∈ s.handlers ∧
      Handled shard raftPort s.configuration x c' x' ∧
      s' = { s with configuration := c', handlers := x'.toList ++ s.handlers.erase x } := by
  obtain ⟨_, _, _, -, -, rfl⟩ | ⟨_, _, _, _, _, -, -, -, rfl⟩ | ⟨_, _, _, -, -, -, rfl⟩ |
    ⟨_, -, rfl⟩ | ⟨_, -, -, rfl⟩ | ⟨x, a, rfl, hx, rfl⟩ | ⟨_, -, rfl⟩ | ⟨_, -, rfl⟩ :=
    next_cases hst
  case inr.inr.inr.inr.inr.inl =>
    exact .inr ⟨x, a, _, _, rfl, hx, x.handled a s.configuration, rfl⟩
  all_goals exact .inl rfl

/-! ### Replicas that keep their address -/

/-- Every process of a replica is started with the same address, and no request is served while one
of the same replica still is. -/
def Stable (addr : String → String) (s : Members) : Label → Prop
  | .start r ip _ => ip = addr r
  | .serve q => ∀ h ∈ s.handlers, h.request.replica ≠ q.replica
  | _ => True

variable {addr : String → String}

variable (shard raftPort addr) in
/-- The server has the ID and the address of a replica. -/
def Home (m : Server) : Prop :=
  ∃ r, m.id = raftId r shard raftPort ∧ m.address = raftAddress (addr r) raftPort

theorem Home.address_eq {m : Server} {r : String} (h : Home shard raftPort addr m)
    (hid : m.id = raftId r shard raftPort) : m.address = raftAddress (addr r) raftPort := by
  obtain ⟨r', hid', haddress⟩ := h
  cases raftId_injective (hid.symm.trans hid')
  exact haddress

theorem Home.id_eq (hinj : Function.Injective addr) {m : Server} {r : String}
    (h : Home shard raftPort addr m) (haddress : m.address = raftAddress (addr r) raftPort) :
    m.id = raftId r shard raftPort := by
  obtain ⟨r', hid, haddress'⟩ := h
  cases hinj (raftAddress_injective (haddress.symm.trans haddress'))
  exact hid

/-- A replica is listed. -/
def Listed (shard : String) (raftPort : ℕ) (c : Configuration) (r : String) : Prop :=
  ∃ m ∈ c.servers, m.id = raftId r shard raftPort

variable (shard raftPort addr) in
/-- The loop of a `Join` of `r` with these servers to come will meet the replica, or the replica is
not listed. -/
structure Walks (c : Configuration) (r : String) (ms : List Server) : Prop where
  home : ∀ m ∈ ms, Home shard raftPort addr m
  meets : (∃ m ∈ ms, m.id = raftId r shard raftPort) ∨ ¬ Listed shard raftPort c r

variable (shard raftPort addr) in
/-- Every process, every request and every server has the address of its replica, and no two
handlers serve the same replica. -/
structure AtHome (s : Members) : Prop where
  process : ∀ r p, s.process r = some p → p.address = addr r
  requests : ∀ q ∈ s.requests, ∀ ip, q.joinAddress = some ip → ip = addr q.replica
  served : ∀ h ∈ s.handlers, ∀ ip, h.request.joinAddress = some ip → ip = addr h.request.replica
  servers : ∀ m ∈ s.configuration.servers, Home shard raftPort addr m
  alone : (s.handlers.map fun h => h.request.replica).Nodup
  walks : ∀ h ∈ s.handlers, ∀ ms, h.stage = .walking ms →
    Walks shard raftPort addr s.configuration h.request.replica ms

/-- The servers are still listed, as they were or as non-voters. -/
def Kept (c c' : Configuration) : Prop :=
  ∀ m ∈ c.servers, m ∈ c'.servers ∨ { m with suffrage := .nonvoter } ∈ c'.servers

theorem Kept.refl : Kept c c := fun _ hm => .inl hm

theorem Kept.trans (h : Kept c c') (h' : Kept c' c'') : Kept c c'' := by
  intro m hm
  rcases h m hm with hm' | hm'
  · exact h' m hm'
  · exact .inr ((h' _ hm').elim id id)

theorem AtHome.replica_ne (h : AtHome shard raftPort addr s) {x y : Handler}
    (hx : x ∈ s.handlers) (hy : y ∈ s.handlers.erase x) :
    y.request.replica ≠ x.request.replica := by
  intro he
  have hperm := (List.perm_cons_erase hx).map fun h : Handler => h.request.replica
  have hnodup := hperm.nodup_iff.1 h.alone
  rw [List.map_cons, List.nodup_cons] at hnodup
  exact hnodup.1 (List.mem_map.2 ⟨y, hy, he⟩)

/-- The loop removes nobody: a server that has the ID or the address of the replica has both. -/
theorem AtHome.exact (hinj : Function.Injective addr) (h : AtHome shard raftPort addr s)
    {r ip : String} {m : Server} {ms : List Server}
    (hx : ⟨.join r ip, .walking (m :: ms)⟩ ∈ s.handlers)
    (hclash : m.id = raftId r shard raftPort ∨ m.address = raftAddress ip raftPort) :
    m.id = raftId r shard raftPort ∧ m.address = raftAddress ip raftPort := by
  have hip : ip = addr r := h.served _ hx ip rfl
  have hhome := (h.walks _ hx _ rfl).home m List.mem_cons_self
  rw [hip] at hclash ⊢
  rcases hclash with hid | haddress
  · exact ⟨hid, hhome.address_eq hid⟩
  · exact ⟨hhome.id_eq hinj haddress, haddress⟩

/-- A replica that a `Join` adds has not been listed. -/
theorem AtHome.not_listed (h : AtHome shard raftPort addr s) {r ip : String}
    (hx : ⟨.join r ip, .walking []⟩ ∈ s.handlers) : ¬ Listed shard raftPort s.configuration r := by
  rcases (h.walks _ hx _ rfl).meets with ⟨m, hm, -⟩ | hnot
  · cases hm
  · exact hnot

theorem AtHome.kept_handled (hinj : Function.Injective addr) (h : AtHome shard raftPort addr s)
    {x : Handler} {x' : Option Handler} (hx : x ∈ s.handlers)
    (hst : Handled shard raftPort s.configuration x c' x') : Kept s.configuration c' := by
  cases hst with
  | reads | passes | ends => exact .refl
  | removes hclash hexact => exact absurd (h.exact hinj hx hclash) hexact
  | adds hadd =>
    intro m hm
    exact .inl (mem_addVoter_of_ne hadd hm fun hid => h.not_listed hx ⟨m, hm, hid⟩)
  | demotes r ip stage =>
    intro m hm
    by_cases hid : m.id = raftId r shard raftPort
    · exact .inr (mem_demoteVoter.2 ⟨m, hm, (if_pos hid).symm⟩)
    · exact .inl (mem_demoteVoter_of_ne hm hid)

theorem AtHome.servers_handled (h : AtHome shard raftPort addr s) {x : Handler}
    {x' : Option Handler} (hx : x ∈ s.handlers)
    (hst : Handled shard raftPort s.configuration x c' x') {m : Server} (hm : m ∈ c'.servers) :
    Home shard raftPort addr m := by
  rcases hst.server hm with ⟨m', hm', hid, haddress⟩ | ⟨r, ip, hreq, -, rfl⟩
  · obtain ⟨r, hid', haddress'⟩ := h.servers m' hm'
    exact ⟨r, hid.symm.trans hid', haddress.symm.trans haddress'⟩
  · have hip := h.served x hx ip (by rw [hreq]; rfl)
    rw [hreq] at hip
    exact ⟨r, rfl, congrArg (raftAddress · raftPort) hip⟩

/-- A step of a handler lists no replica but its own. -/
theorem listed_of_handled {x : Handler} {x' : Option Handler} {r : String}
    (hst : Handled shard raftPort c x c' x') (hr : r ≠ x.request.replica)
    (hlisted : Listed shard raftPort c' r) : Listed shard raftPort c r := by
  obtain ⟨m, hm, hid⟩ := hlisted
  rcases hst.server hm with ⟨m', hm', hid', -⟩ | ⟨r', ip, hreq, -, rfl⟩
  · exact ⟨m', hm', hid'.trans hid⟩
  · refine absurd (raftId_injective hid).symm ?_
    rw [hreq] at hr
    exact hr

theorem AtHome.walks_handled (h : AtHome shard raftPort addr s) {x y : Handler}
    {x' : Option Handler} (hx : x ∈ s.handlers)
    (hst : Handled shard raftPort s.configuration x c' x') (hy : y ∈ x') {ms : List Server}
    (hms : y.stage = .walking ms) (hinj : Function.Injective addr) :
    Walks shard raftPort addr c' y.request.replica ms := by
  cases hst with
  | reads r ip =>
    cases hy
    cases hms
    exact ⟨h.servers, Classical.em _⟩
  | passes hid =>
    cases hy
    cases hms
    have hwalks := h.walks _ hx _ rfl
    refine ⟨fun m hm => hwalks.home m (List.mem_cons_of_mem _ hm), hwalks.meets.imp_left ?_⟩
    rintro ⟨m, hm, hr⟩
    rcases List.mem_cons.1 hm with rfl | hm
    · exact absurd hr hid
    · exact ⟨m, hm, hr⟩
  | removes hclash hexact => exact absurd (h.exact hinj hx hclash) hexact
  | adds => cases hy
  | demotes => cases hy
  | ends => cases hy

theorem AtHome.handle (hinj : Function.Injective addr) (h : AtHome shard raftPort addr s)
    {x : Handler} {x' : Option Handler} (hx : x ∈ s.handlers)
    (hst : Handled shard raftPort s.configuration x c' x') :
    AtHome shard raftPort addr
      { s with configuration := c', handlers := x'.toList ++ s.handlers.erase x } where
  process := h.process
  requests := h.requests
  served y hy ip hip := by
    rcases List.mem_append.1 hy with hy | hy
    · rw [hst.request (Option.mem_toList.1 hy)] at hip ⊢
      exact h.served x hx ip hip
    · exact h.served y (List.mem_of_mem_erase hy) ip hip
  servers _ hm := h.servers_handled hx hst hm
  alone := by
    have hperm := (List.perm_cons_erase hx).map fun h : Handler => h.request.replica
    have hnodup := hperm.nodup_iff.1 h.alone
    cases hx' : x' with
    | none => exact (List.nodup_cons.1 hnodup).2
    | some y =>
      have hy : y.request = x.request := hst.request hx'
      simp only [Option.toList_some, List.singleton_append, List.map_cons, hy]
      exact hnodup
  walks y hy ms hms := by
    rcases List.mem_append.1 hy with hy | hy
    · exact h.walks_handled hx hst (Option.mem_toList.1 hy) hms hinj
    · have hne := h.replica_ne hx hy
      have hwalks := h.walks y (List.mem_of_mem_erase hy) ms hms
      exact ⟨hwalks.home, hwalks.meets.imp_right fun hnot hl => hnot (listed_of_handled hst hne hl)⟩

theorem atHome_bootstrapped (r : String) (replicas : List String) :
    AtHome shard raftPort addr (bootstrapped shard raftPort r (addr r)
      (raftAddress (addr r) raftPort) replicas) where
  process r' p hp := by
    obtain ⟨rfl, rfl⟩ := process_bootstrapped hp
    rfl
  requests q hq := by cases hq
  served h hh := by cases hh
  servers m hm := ⟨r, by rw [List.mem_singleton.1 hm], by rw [List.mem_singleton.1 hm]⟩
  alone := List.nodup_nil
  walks h hh := by cases hh

theorem AtHome.setProcess {r : String} {p : Process} (h : AtHome shard raftPort addr s)
    (hp : p.address = addr r) {requests : List Request}
    (hrequests : ∀ q ∈ requests, ∀ ip, q.joinAddress = some ip → ip = addr q.replica) :
    AtHome shard raftPort addr { s with
      process := Function.update s.process r (some p), requests := requests } where
  process r' p' hp' := by
    rcases update_eq_some hp' with ⟨rfl, heq⟩ | ⟨-, hr⟩
    · cases heq
      exact hp
    · exact h.process r' p' hr
  requests := hrequests
  served := h.served
  servers := h.servers
  alone := h.alone
  walks := h.walks

theorem AtHome.end {r : String} {b : Bool} (h : AtHome shard raftPort addr s) :
    AtHome shard raftPort addr { s with
      process := Function.update s.process r none, panicked := b } where
  process r' p' hp' := by
    rcases update_eq_some hp' with ⟨rfl, heq⟩ | ⟨-, hr⟩
    · cases heq
    · exact h.process r' p' hr
  requests := h.requests
  served := h.served
  servers := h.servers
  alone := h.alone
  walks := h.walks

/-- A request arrives, and no other one of its replica is being served. -/
theorem AtHome.serve (h : AtHome shard raftPort addr s) {q : Request} (hq : q ∈ s.requests)
    (halone : ∀ h ∈ s.handlers, h.request.replica ≠ q.replica) :
    AtHome shard raftPort addr { s with
      requests := s.requests.erase q, handlers := ⟨q, .called⟩ :: s.handlers } where
  process := h.process
  requests q' hq' := h.requests q' (List.mem_of_mem_erase hq')
  served := List.forall_mem_cons.2 ⟨h.requests q hq, h.served⟩
  servers := h.servers
  alone := by
    refine List.nodup_cons.2 ⟨fun hmem => ?_, h.alone⟩
    obtain ⟨x, hx, he⟩ := List.mem_map.1 hmem
    exact halone x hx he
  walks := List.forall_mem_cons.2 ⟨fun _ hms => (by cases hms), h.walks⟩

theorem AtHome.next (hinj : Function.Injective addr) (h : AtHome shard raftPort addr s)
    (hl : Stable addr s l) (hst : Members.next shard raftPort s l = some s') :
    AtHome shard raftPort addr s' ∧ Kept s.configuration s'.configuration := by
  obtain ⟨r, ip, replicas, rfl, -, rfl⟩ | ⟨r, act, p, p', sent, rfl, hp, hstep, rfl⟩ |
    ⟨r, act, p, rfl, -, -, rfl⟩ | ⟨r, rfl, rfl⟩ | ⟨q, rfl, hq, rfl⟩ | ⟨x, a, rfl, hx, rfl⟩ |
    ⟨q, rfl, rfl⟩ | ⟨x, rfl, rfl⟩ := next_cases hst
  · have hip : (Process.opened ip replicas).address = addr r := hl
    exact ⟨h.setProcess hip h.requests, .refl⟩
  · have hgoes := Process.goes_of_step hstep
    have haddr := h.process r p hp
    refine ⟨h.setProcess (hgoes.address.trans haddr) fun q hq ip hip => ?_, .refl⟩
    rcases List.mem_append.1 hq with hsent | hq
    · obtain ⟨hreplica, rfl, -⟩ := hgoes.join q ip (Option.mem_toList.1 hsent) hip
      rw [hreplica, haddr]
    · exact h.requests q hq ip hip
  · exact ⟨h.end, .refl⟩
  · exact ⟨h.end, .refl⟩
  · exact ⟨h.serve hq hl, .refl⟩
  · have hhandled : Handled shard raftPort s.configuration x _ _ := x.handled a s.configuration
    exact ⟨h.handle hinj hx hhandled, h.kept_handled hinj hx hhandled⟩
  · exact ⟨⟨h.process, fun q' hq' => h.requests q' (List.mem_of_mem_erase hq'), h.served,
      h.servers, h.alone, h.walks⟩, .refl⟩
  · exact ⟨⟨h.process, h.requests, fun y hy => h.served y (List.mem_of_mem_erase hy), h.servers,
      h.alone.sublist (List.erase_sublist.map _),
      fun y hy => h.walks y (List.mem_of_mem_erase hy)⟩, .refl⟩

theorem AtHome.of_reached (hinj : Function.Injective addr) {r : String} {replicas : List String}
    (hs : (machine shard raftPort).ReachedBy (Stable addr)
      (bootstrapped shard raftPort r (addr r) (raftAddress (addr r) raftPort) replicas) s) :
    AtHome shard raftPort addr s :=
  hs.invariant (I := AtHome shard raftPort addr) (atHome_bootstrapped r replicas)
    fun _ _ _ h hl hst => (h.next hinj hl hst).1

/-- **A server that is listed stays listed, and a non-voter stays a non-voter.**  Take any shard
whose replicas are always started with the same address, no two with the same one, whose first
replica has bootstrapped the group at that address, and in which no two requests of one replica are
served at the same time: whatever processes are started, signalled and killed, in whatever order the
requests are sent, lost and served, the handlers of different replicas overtake each other and the
leadership moves, a server of the group is later still listed with its ID and its address, with the
suffrage that it had or as a non-voter.  No `Join` undoes a demotion. -/
theorem listed_stays (hinj : Function.Injective addr) (r : String) (replicas : List String)
    (hs : (machine shard raftPort).ReachedBy (Stable addr)
      (bootstrapped shard raftPort r (addr r) (raftAddress (addr r) raftPort) replicas) s)
    (hs' : (machine shard raftPort).ReachedBy (Stable addr) s s') {m : Server}
    (hm : m ∈ s.configuration.servers) :
    m ∈ s'.configuration.servers ∨
      { m with suffrage := .nonvoter } ∈ s'.configuration.servers := by
  have hinv : AtHome shard raftPort addr s' ∧ Kept s.configuration s'.configuration := by
    refine hs'.invariant (I := fun s' => AtHome shard raftPort addr s' ∧
      Kept s.configuration s'.configuration) ⟨.of_reached hinj hs, .refl⟩ ?_
    rintro s₁ l s₂ ⟨h, hkept⟩ hl hst
    obtain ⟨h', hkept'⟩ := h.next hinj hl hst
    exact ⟨h', hkept.trans hkept'⟩
  exact hinv.2 m hm

/-- A process of the replica starts and sends its `Join` to the leader. -/
def comes (r ip leader : String) : List Label :=
  [.start r ip ["a", "b"], .act r .dial, .act r .dial, .act r (.readLeader leader),
    .act r .synced, .act r .join]

/-- The leader carries out the `Join`, whose loop goes over the servers. -/
def joins (r ip : String) (ms : List Server) : List Label :=
  .handle ⟨.join r ip, .called⟩ .ok :: ms.tails.map fun ms => .handle ⟨.join r ip, .walking ms⟩ .ok

/-- A process of the replica is shut down and asks the leader to demote it. -/
def leaves (r leader : String) : List Label :=
  [.act r .signal, .act r (.close leader), .act r .demoteVoter]

/-- The second replica joins at an address. -/
def joined (ip : String) : List Label :=
  comes "b" ip "a.s:1" ++ .serve (.join "b" ip) :: joins "b" ip [⟨.voter, "a.s:1", "a:1"⟩]

/-- The second replica, at `b`, is shut down, and the leader demotes it. -/
def shutDown : List Label :=
  leaves "b" "a.s:1" ++
    [.serve (.demoteVoter "b" "b"), .handle ⟨.demoteVoter "b" "b", .called⟩ .ok, .kill "b"]

theorem reached_joined :
    (machine "s" 1).ReachedBy (Stable fun r => r) (bootstrapped "s" 1 "a" "a" "a:1" ["a", "b"])
      (after (joined "b")) := by
  have hcomes : (machine "s" 1).ReachedBy (Stable fun r => r)
      (bootstrapped "s" 1 "a" "a" "a:1" ["a", "b"]) (after (comes "b" "b" "a.s:1")) :=
    .of_run (comes "b" "b" "a.s:1") (by simp [comes, Stable]) rfl
  exact hcomes.trans <| .head (l := .serve (.join "b" "b")) (fun _ hh => by cases hh) rfl <|
    .of_run (joins "b" "b" [⟨.voter, "a.s:1", "a:1"⟩]) (by simp [joins, Stable]) rfl

theorem reached_shutDown :
    (machine "s" 1).ReachedBy (Stable fun r => r) (after (joined "b"))
      (after (joined "b" ++ shutDown)) := by
  have hleaves : (machine "s" 1).ReachedBy (Stable fun r => r) (after (joined "b"))
      (after (joined "b" ++ leaves "b" "a.s:1")) :=
    .of_run (leaves "b" "a.s:1") (by simp [leaves, Stable]) rfl
  exact hleaves.trans <| .head (l := .serve (.demoteVoter "b" "b")) (fun _ hh => by cases hh) rfl <|
    .of_run [.handle ⟨.demoteVoter "b" "b", .called⟩ .ok, .kill "b"] (by simp [Stable]) rfl

/-- A replica joins, is shut down, starts again at its address and sends a `Join` that the leader
serves: it is still a non-voter. -/
theorem listed_stays_restart :
    ∃ s' : Members, (machine "s" 1).ReachedBy (Stable fun r => r)
        (after (joined "b" ++ shutDown)) s' ∧
      (⟨.nonvoter, "b.s:1", "b:1"⟩ : Server) ∈ s'.configuration.servers := by
  have hcomes : (machine "s" 1).ReachedBy (Stable fun r => r) (after (joined "b" ++ shutDown))
      (after (joined "b" ++ shutDown ++ comes "b" "b" "a.s:1")) :=
    .of_run (comes "b" "b" "a.s:1") (by simp [comes, Stable]) rfl
  have hjoins : (machine "s" 1).ReachedBy (Stable fun r => r)
      (after (joined "b" ++ shutDown ++ comes "b" "b" "a.s:1")) _ :=
    .head (l := .serve (.join "b" "b")) (fun _ hh => by cases hh) rfl <|
      .of_run ((joins "b" "b" [⟨.voter, "a.s:1", "a:1"⟩, ⟨.nonvoter, "b.s:1", "b:1"⟩]).take 3)
        (by simp [joins, Stable]) rfl
  exact ⟨_, hcomes.trans hjoins, or_self_iff.1 (listed_stays Function.injective_id "a" ["a", "b"]
    (reached_joined.trans reached_shutDown) (hcomes.trans hjoins)
    (m := ⟨.nonvoter, "b.s:1", "b:1"⟩) (by decide))⟩

/-! ### Voters are lost for good -/

/-- The number of voters. -/
def voters (c : Configuration) : ℕ := c.servers.countP fun m => m.suffrage = .voter

variable (shard raftPort addr) in
/-- The guard `Stable`, and no replica is added that is not listed. -/
def Settled (s : Members) (l : Label) : Prop :=
  Stable addr s l ∧ ∀ r ip a, l = .handle ⟨.join r ip, .walking []⟩ a →
    Listed shard raftPort s.configuration r

variable (shard raftPort) in
/-- The leader serves the `DemoteVoter` of a voter, and Raft carries it out. -/
def Demotes (s : Members) (l : Label) : Prop :=
  ∃ r ip stage, l = .handle ⟨.demoteVoter r ip, stage⟩ .ok ∧
    ∃ m ∈ s.configuration.servers, m.id = raftId r shard raftPort ∧ m.suffrage = .voter

theorem voters_demoteVoter (c : Configuration) (id : String) :
    voters (c.demoteVoter id) + (c.servers.countP fun m => m.suffrage = .voter ∧ m.id = id) =
      voters c := by
  unfold voters Configuration.demoteVoter
  dsimp only
  induction c.servers with
  | nil => rfl
  | cons m ms ih =>
    rw [List.map_cons, List.countP_cons, List.countP_cons, List.countP_cons, ← ih]
    generalize (ms.map _).countP _ = x
    generalize ms.countP _ = y
    by_cases hid : m.id = id <;> by_cases hv : m.suffrage = .voter <;> simp [hid, hv] <;> omega

/-- No event adds a voter when no new replica is added. -/
theorem AtHome.voters_le (hinj : Function.Injective addr) (h : AtHome shard raftPort addr s)
    (hl : Settled shard raftPort addr s l) (hst : Members.next shard raftPort s l = some s') :
    voters s'.configuration ≤ voters s.configuration := by
  rcases configuration_next hst with hsame | ⟨x, a, c', x', rfl, hx, hhandled, rfl⟩
  · rw [hsame]
  · cases hhandled with
    | reads | passes | ends => exact Nat.le_refl _
    | removes hclash hexact => exact absurd (h.exact hinj hx hclash) hexact
    | adds => exact absurd (hl.2 _ _ a rfl) (h.not_listed hx)
    | demotes r ip stage =>
      have hcount := voters_demoteVoter s.configuration (raftId r shard raftPort)
      dsimp only
      omega

theorem voters_lt (hl : Demotes shard raftPort s l)
    (hst : Members.next shard raftPort s l = some s') :
    voters s'.configuration < voters s.configuration := by
  obtain ⟨r, ip, stage, rfl, m, hm, hid, hv⟩ := hl
  simp only [Members.next, Handler.step] at hst
  split_ifs at hst
  cases hst
  have hcount := voters_demoteVoter s.configuration (raftId r shard raftPort)
  have hpos : 0 < s.configuration.servers.countP fun m =>
      m.suffrage = .voter ∧ m.id = raftId r shard raftPort :=
    List.countP_pos_iff.2 ⟨m, hm, by simp [hv, hid]⟩
  dsimp only
  omega

/-- **Every demotion costs the group a voter for good.**  Take any shard whose replicas keep their
addresses and whose requests are served one at a time for each replica, and from any of its states
on any run in which no replica is added that is not listed already.  Restarted replicas send their
`Join`s, and yet after `n` demotions of voters there are `n` voters less: a rolling restart of a
group of `n + 1` replicas, in which every shutdown is served, leaves one voter. -/
theorem voters_lost (hinj : Function.Injective addr) (r : String) (replicas : List String) {n : ℕ}
    (hs : (machine shard raftPort).ReachedBy (Stable addr)
      (bootstrapped shard raftPort r (addr r) (raftAddress (addr r) raftPort) replicas) s)
    (hs' : (machine shard raftPort).ReachedCounting (Settled shard raftPort addr)
      (Demotes shard raftPort) s n s') :
    voters s'.configuration ≤ voters s.configuration - n := by
  refine (hs'.rank_le (I := AtHome shard raftPort addr) (fun s => voters s.configuration)
    (.of_reached hinj hs) ?_ ?_).2
  · intro s₁ l s₂ h hl hst
    exact ⟨(h.next hinj hl.1 hst).1, h.voters_le hinj hl hst⟩
  · intro s₁ l s₂ h hl hg hst
    have := voters_lt hg hst
    omega

/-- Of two voters one is shut down. -/
theorem voters_lost_shutdown :
    voters (after (joined "b")).configuration = 2 ∧
      ∃ s' : Members, (machine "s" 1).ReachedCounting (Settled "s" 1 fun r => r) (Demotes "s" 1)
        (after (joined "b")) 1 s' ∧ voters s'.configuration ≤ 2 - 1 := by
  have hs' : (machine "s" 1).ReachedCounting (Settled "s" 1 fun r => r) (Demotes "s" 1)
      (after (joined "b")) 1 (after (joined "b" ++ shutDown)) := by
    have hact : ∀ s act, Settled "s" 1 (fun r => r) s (.act "b" act) :=
      fun _ _ => ⟨trivial, fun r ip a h => by cases h⟩
    refine .step (l := .kill "b") (.good (l := .handle ⟨.demoteVoter "b" "b", .called⟩ .ok)
      (.step (l := .serve (.demoteVoter "b" "b")) (.step (l := .act "b" .demoteVoter)
      (.step (l := .act "b" (.close "a.s:1")) (.step (l := .act "b" .signal) .start (hact _ _) rfl)
      (hact _ _) rfl) (hact _ _) rfl) ⟨fun _ hh => (by cases hh), fun r ip a h => (by cases h)⟩ rfl)
      ⟨trivial, fun r ip a h => (by cases h)⟩ ?_ rfl) ⟨trivial, fun r ip a h => (by cases h)⟩ rfl
    exact ⟨"b", "b", .called, rfl, ⟨.voter, "b.s:1", "b:1"⟩, by decide, rfl, rfl⟩
  exact ⟨rfl, _, hs', voters_lost Function.injective_id "a" ["a", "b"] reached_joined hs'⟩

end Members

end Raft

end ShardedKvs
