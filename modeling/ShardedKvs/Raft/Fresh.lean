import Mathlib.Data.List.Perm.Basic
import ShardedKvs.Raft.Voters

/-!
# Replicas that come back at fresh addresses

A pod that is started again usually has another IP address.  `KVStore.Join` then finds the replica
under its ID with the old address, removes it and adds it as a voter.  The handlers of several
`Join`s overtake each other, so a handler may walk over a configuration that has changed since.

* `Members.Pending` : a `Join` that is on its way or being served, or that a process has still to
  send.
* `Members.Fresh` : no process is started with an address that is in use.
* `Members.Unlisted` : an address belongs to one `Join` at most, and is not listed before that has
  been served.
* `Members.voter_of_join` : **when every start has a fresh address, a `Join` that the leader serves
  makes the replica a voter**, and it stays one until another request of the replica is served.
-/

namespace ShardedKvs

namespace Raft

variable {shard : String} {raftPort : ℕ} {c c' : Configuration} {id address : String}

/-! ### The calls of Raft -/

theorem mem_removeServer_of_ne {m : Server} (hm : m ∈ c.servers) (hid : m.id ≠ id) :
    m ∈ (c.removeServer id).servers := List.mem_filter.2 ⟨hm, decide_eq_true hid⟩

/-- Raft adds a server whose address nobody has, and it is a voter then. -/
theorem exists_addVoter (id : String) (haddress : ∀ m ∈ c.servers, m.address ≠ address) :
    ∃ c', c.addVoter id address = some c' ∧ ⟨.voter, id, address⟩ ∈ c'.servers := by
  have hnodup : ((c.votersWith id address).map Server.address).Nodup := by
    unfold Configuration.votersWith
    split_ifs
    · rw [List.map_map]
      -- the server with the ID takes the address, which no other server has
      refine (List.Nodup.of_map _ c.ids).map_on fun m hm m' hm' he => ?_
      simp only [Function.comp_apply] at he
      split_ifs at he with hid hid'
      · exact Configuration.eq_of_id hm hm' (hid.trans hid'.symm)
      · exact absurd he.symm (haddress m' hm')
      · exact absurd he (haddress m hm)
      · exact List.inj_on_of_nodup_map c.addresses hm hm' he
    · rw [List.map_append, List.nodup_append]
      refine ⟨c.addresses, List.nodup_singleton address, fun x hx y hy hxy => ?_⟩
      obtain ⟨m, hm, rfl⟩ := List.mem_map.1 hx
      exact haddress m hm (hxy.trans (List.mem_singleton.1 hy))
  refine ⟨_, dif_pos hnodup, ?_⟩
  change _ ∈ c.votersWith id address
  unfold Configuration.votersWith
  split_ifs with hid
  · obtain ⟨m, hm, he⟩ := List.mem_map.1 hid
    exact List.mem_map.2 ⟨m, hm, if_pos he⟩
  · exact List.mem_append_right _ (List.mem_singleton_self _)

namespace Members

variable {s s' : Members} {l : Label}

/-! ### The `Join`s under way -/

/-- The requests on their way and those that are being served. -/
def pending (s : Members) : List Request := s.requests ++ s.handlers.map Handler.request

/-- The addresses in the `Join`s that are on their way or being served. -/
def joinAddresses (s : Members) : List String := s.pending.filterMap Request.joinAddress

/-- A `Join` of the replica with the address is on its way or being served, or a process has still
to send it. -/
def Pending (s : Members) (r ip : String) : Prop :=
  .join r ip ∈ s.pending ∨ ∃ p, s.process r = some p ∧ p.joiner.unsent = true ∧ p.address = ip

variable (raftPort) in
/-- A process is started with an address that no server of the group, no process and no request has,
be it on its way or being served. -/
def Fresh (s : Members) : Label → Prop
  | .start _ ip _ => (∀ m ∈ s.configuration.servers, m.address ≠ raftAddress ip raftPort) ∧
      ip ∉ s.joinAddresses ∧ ∀ r p, s.process r = some p → p.address ≠ ip
  | _ => True

theorem mem_joinAddresses {r ip : String} (h : .join r ip ∈ s.pending) : ip ∈ s.joinAddresses :=
  List.mem_filterMap.2 ⟨_, h, rfl⟩

/-- A handler that has returned takes its request with it. -/
theorem pending_perm {x : Handler} (hx : x ∈ s.handlers) (c : Configuration) :
    s.pending.Perm (x.request ::
      pending { s with configuration := c, handlers := s.handlers.erase x }) := by
  have hperm := (List.perm_cons_erase hx).map Handler.request
  exact (hperm.append_left s.requests).trans List.perm_middle

/-- The requests after a step of a handler are those before, or all but that of the handler. -/
theorem pending_handled {x : Handler} {x' : Option Handler} (hx : x ∈ s.handlers)
    (hst : Handled shard raftPort s.configuration x c' x') :
    (pending { s with configuration := c', handlers := x'.toList ++ s.handlers.erase x }).Subperm
      s.pending := by
  have hperm := pending_perm hx c'
  cases hx' : x' with
  | none => exact (List.sublist_cons_self _ _).subperm.trans hperm.symm.subperm
  | some y =>
    refine (List.Perm.trans ?_ hperm.symm).subperm
    have hy : y.request = x.request := hst.request hx'
    simp only [pending, Option.toList_some, List.singleton_append, List.map_cons, hy]
    exact List.perm_middle

/-- The requests after an event are among those before and what a process has sent. -/
theorem pending_next (hst : Members.next shard raftPort s l = some s') :
    s'.pending.Subperm s.pending ∨ ∃ r act p p' sent, l = .act r act ∧ s.process r = some p ∧
      p.step shard raftPort r act = some (.goes p' sent) ∧
      s'.process = Function.update s.process r (some p') ∧
      s'.pending = sent.toList ++ s.pending := by
  obtain ⟨r, ip', replicas, rfl, -, rfl⟩ | ⟨r, act, p, p', sent, rfl, hp, hstep, rfl⟩ |
    ⟨r, act, p, rfl, -, -, rfl⟩ | ⟨r, rfl, rfl⟩ | ⟨q, rfl, hq, rfl⟩ | ⟨x, a, rfl, hx, rfl⟩ |
    ⟨q, rfl, rfl⟩ | ⟨x, rfl, rfl⟩ := next_cases hst
  · exact .inl (.refl _)
  · exact .inr ⟨r, act, p, p', sent, rfl, hp, hstep, rfl, List.append_assoc ..⟩
  · exact .inl (.refl _)
  · exact .inl (.refl _)
  · refine .inl (List.Perm.subperm ?_)
    simp only [pending, List.map_cons]
    exact List.perm_middle.trans ((List.perm_cons_erase hq).symm.append_right _)
  · exact .inl (pending_handled hx (x.handled a s.configuration))
  · exact .inl (List.erase_sublist.append_right _).subperm
  · exact .inl ((List.erase_sublist.map _).append_left _).subperm

/-- A process goes on with its address, or it is started. -/
theorem process_next (hst : Members.next shard raftPort s l = some s') {r : String} {p' : Process}
    (hp' : s'.process r = some p') :
    (∃ p, s.process r = some p ∧ p'.address = p.address ∧
        (p'.joiner.unsent = true → p.joiner.unsent = true)) ∨
      ∃ replicas, l = .start r p'.address replicas := by
  have hsame : s.process r = some p' → ∃ p, s.process r = some p ∧ p'.address = p.address ∧
      (p'.joiner.unsent = true → p.joiner.unsent = true) := fun h => ⟨p', h, rfl, fun h => h⟩
  obtain ⟨r', ip', replicas, rfl, -, rfl⟩ | ⟨r', act, p, p'', sent, rfl, hp, hstep, rfl⟩ |
    ⟨r', act, p, rfl, -, -, rfl⟩ | ⟨r', rfl, rfl⟩ | ⟨q, rfl, hq, rfl⟩ | ⟨x, a, rfl, hx, rfl⟩ |
    ⟨q, rfl, rfl⟩ | ⟨x, rfl, rfl⟩ := next_cases hst
  · rcases update_eq_some hp' with ⟨rfl, heq⟩ | ⟨-, hr⟩
    · cases heq
      exact .inr ⟨replicas, rfl⟩
    · exact .inl (hsame hr)
  · left
    rcases update_eq_some hp' with ⟨rfl, heq⟩ | ⟨-, hr⟩
    · cases heq
      have hgoes := Process.goes_of_step hstep
      exact ⟨p, hp, hgoes.address, hgoes.unsent⟩
    · exact hsame hr
  · rcases update_eq_some hp' with ⟨-, heq⟩ | ⟨-, hr⟩
    · cases heq
    · exact .inl (hsame hr)
  · rcases update_eq_some hp' with ⟨-, heq⟩ | ⟨-, hr⟩
    · cases heq
    · exact .inl (hsame hr)
  · exact .inl (hsame hp')
  · exact .inl (hsame hp')
  · exact .inl (hsame hp')
  · exact .inl (hsame hp')

/-- A `Join` comes from a process that is started. -/
theorem pending_of_next {r ip : String} (hst : Members.next shard raftPort s l = some s')
    (h : Pending s' r ip) : Pending s r ip ∨ ∃ replicas, l = .start r ip replicas := by
  rcases h with h | ⟨p', hp', hunsent, rfl⟩
  · left
    rcases pending_next hst with hsub | ⟨r', act, p, p', sent, rfl, hp, hstep, -, heq⟩
    · exact .inl (hsub.subset h)
    · rw [heq, List.mem_append, Option.mem_toList] at h
      rcases h with hsent | h
      · obtain ⟨rfl, rfl, hunsent, -⟩ := (Process.goes_of_step hstep).join _ ip hsent rfl
        exact .inr ⟨p, hp, hunsent, rfl⟩
      · exact .inl h
  · refine (process_next hst hp').imp_left ?_
    rintro ⟨p, hp, haddress, hunsent'⟩
    exact .inr ⟨p, hp, hunsent' hunsent, haddress.symm⟩

/-- The addresses in the `Join`s after an event: some of those before, or one more, that of the
process that has sent it. -/
theorem joinAddresses_next (hst : Members.next shard raftPort s l = some s') :
    s'.joinAddresses.Subperm s.joinAddresses ∨ ∃ r act p, l = .act r act ∧
      s.process r = some p ∧ p.joiner.unsent = true ∧
      s'.joinAddresses = p.address :: s.joinAddresses ∧
      ∀ p', s'.process r = some p' → p'.joiner.unsent = false := by
  rcases pending_next hst with ⟨qs, hperm, hsub⟩ |
    ⟨r, act, p, p', sent, rfl, hp, hstep, hprocess, heq⟩
  · exact .inl ⟨_, hperm.filterMap _, hsub.filterMap _⟩
  · have hjoin := (Process.goes_of_step hstep).join
    unfold joinAddresses
    rw [heq]
    cases hsent : sent.bind Request.joinAddress with
    | none =>
      left
      cases sent with
      | none => exact .refl _
      | some q =>
        have hq : q.joinAddress = none := hsent
        rw [Option.toList_some, List.singleton_append, List.filterMap_cons_none hq]
    | some ip =>
      obtain ⟨q, hq, hip⟩ := Option.bind_eq_some_iff.1 hsent
      obtain ⟨-, rfl, hbefore, hafter⟩ := hjoin q ip hq hip
      refine .inr ⟨r, act, p, rfl, hp, hbefore, by simp [hq, hip], fun p'' hp'' => ?_⟩
      rw [hprocess, Function.update_self] at hp''
      cases hp''
      exact hafter

variable (shard raftPort) in
/-- Every address belongs to one `Join` at most, and is not listed before that has been served.
The address `ip₀` is that of the process that has bootstrapped the group. -/
structure Unlisted (ip₀ : String) (s : Members) : Prop where
  nodup : s.joinAddresses.Nodup
  distinct : ∀ r r' p p', s.process r = some p → s.process r' = some p' →
    p.address = p'.address → r = r'
  unsent : ∀ r p, s.process r = some p → p.joiner.unsent = true → p.address ∉ s.joinAddresses
  free : ∀ r ip, Pending s r ip → ∀ m ∈ s.configuration.servers,
    m.address = raftAddress ip raftPort → m.id = raftId r shard raftPort ∧ ip = ip₀
  walks : ∀ r ip ms, ⟨.join r ip, .walking ms⟩ ∈ s.handlers → ∀ m ∈ ms,
    m.address = raftAddress ip raftPort → m.id = raftId r shard raftPort ∧ ip = ip₀

section Fresh

variable {ip₀ : String}

theorem unlisted_bootstrapped (r localAddr : String) (replicas : List String) :
    Unlisted shard raftPort ip₀ (bootstrapped shard raftPort r ip₀ localAddr replicas) := by
  have hprocess : ∀ r' p, (bootstrapped shard raftPort r ip₀ localAddr replicas).process r' =
      some p → r' = r ∧ p.address = ip₀ := by
    intro r' p hp
    obtain ⟨rfl, rfl⟩ := process_bootstrapped hp
    exact ⟨rfl, rfl⟩
  refine ⟨List.nodup_nil, ?_, fun _ _ _ _ => List.not_mem_nil, ?_, fun _ _ _ h => by cases h⟩
  · intro r₁ r₂ p p' hp hp' _
    exact (hprocess r₁ p hp).1.trans (hprocess r₂ p' hp').1.symm
  · rintro r' ip (h | ⟨p, hp, -, rfl⟩) m hm -
    · cases h
    · obtain ⟨rfl, hip⟩ := hprocess r' p hp
      cases List.mem_singleton.1 hm
      exact ⟨rfl, hip⟩

theorem Unlisted.nodup_next (h : Unlisted shard raftPort ip₀ s)
    (hst : Members.next shard raftPort s l = some s') : s'.joinAddresses.Nodup := by
  rcases joinAddresses_next hst with ⟨xs, hperm, hsub⟩ | ⟨r, act, p, rfl, hp, hunsent, heq, -⟩
  · exact hperm.nodup_iff.1 (h.nodup.sublist hsub)
  · rw [heq]
    exact List.nodup_cons.2 ⟨h.unsent r p hp hunsent, h.nodup⟩

theorem Unlisted.distinct_next (h : Unlisted shard raftPort ip₀ s) (hl : Fresh raftPort s l)
    (hst : Members.next shard raftPort s l = some s') {r r' : String} {p p' : Process}
    (hp : s'.process r = some p) (hp' : s'.process r' = some p') (he : p.address = p'.address) :
    r = r' := by
  rcases process_next hst hp with ⟨q, hq, haddress, -⟩ | ⟨replicas, rfl⟩ <;>
    rcases process_next hst hp' with ⟨q', hq', haddress', -⟩ | ⟨replicas', heq⟩
  · exact h.distinct r r' q q' hq hq' (haddress.symm.trans (he.trans haddress'))
  · subst heq
    exact absurd (haddress.symm.trans he) (hl.2.2 r q hq)
  · exact absurd (haddress'.symm.trans he.symm) (hl.2.2 r' q' hq')
  · exact (Label.start.inj heq).1

theorem Unlisted.unsent_next (h : Unlisted shard raftPort ip₀ s) (hl : Fresh raftPort s l)
    (hst : Members.next shard raftPort s l = some s') {r : String} {p : Process}
    (hp : s'.process r = some p) (hunsent : p.joiner.unsent = true) :
    p.address ∉ s'.joinAddresses := by
  have hold : p.address ∉ s.joinAddresses := by
    rcases process_next hst hp with ⟨q, hq, haddress, hunsent'⟩ | ⟨replicas, rfl⟩
    · rw [haddress]
      exact h.unsent r q hq (hunsent' hunsent)
    · exact hl.2.1
  rcases joinAddresses_next hst with hsub | ⟨r', act, q, rfl, hq, -, heq, hsent⟩
  · exact fun hmem => hold (hsub.subset hmem)
  · rw [heq]
    intro hmem
    rcases List.mem_cons.1 hmem with he | hmem
    · -- only the process that has just sent its `Join` has this address
      rcases process_next hst hp with ⟨q', hq', haddress, -⟩ | ⟨replicas, hstart⟩
      · cases h.distinct r r' q' q hq' hq (haddress.symm.trans he)
        rw [hsent p hp] at hunsent
        cases hunsent
      · cases hstart
    · exact hold hmem

theorem Unlisted.not_pending {r ip : String} {x : Handler} (h : Unlisted shard raftPort ip₀ s)
    (hx : x ∈ s.handlers) (hip : x.request.joinAddress = some ip) (c : Configuration) :
    ¬ Pending { s with configuration := c, handlers := s.handlers.erase x } r ip := by
  have hperm := (pending_perm hx c).filterMap Request.joinAddress
  rw [List.filterMap_cons_some hip] at hperm
  rintro (hmem | ⟨p, hp, hunsent, rfl⟩)
  · exact (List.nodup_cons.1 (hperm.nodup_iff.1 h.nodup)).1 (mem_joinAddresses hmem)
  · exact h.unsent r p hp hunsent (hperm.mem_iff.2 List.mem_cons_self)

theorem Unlisted.free_next (h : Unlisted shard raftPort ip₀ s) (hl : Fresh raftPort s l)
    (hst : Members.next shard raftPort s l = some s') {r ip : String} (hpending : Pending s' r ip) :
    ∀ m ∈ s'.configuration.servers, m.address = raftAddress ip raftPort →
      m.id = raftId r shard raftPort ∧ ip = ip₀ := by
  have hfree : ∀ m ∈ s.configuration.servers, m.address = raftAddress ip raftPort →
      m.id = raftId r shard raftPort ∧ ip = ip₀ := by
    rcases pending_of_next hst hpending with hpending | ⟨replicas, rfl⟩
    · exact h.free r ip hpending
    · exact fun m hm he => absurd he (hl.1 m hm)
  rcases configuration_next hst with hsame | ⟨x, a, c', x', rfl, hx, hhandled, rfl⟩
  · rw [hsame]
    exact hfree
  · intro m hm he
    rcases hhandled.server hm with ⟨m', hm', hid, haddress⟩ | ⟨r', ip', hreq, rfl, rfl⟩
    · rw [← hid]
      exact hfree m' hm' (haddress.trans he)
    · -- the address that has been added now is no longer pending
      cases raftAddress_injective he
      exact absurd hpending (h.not_pending hx (by rw [hreq]; rfl) _)

theorem Unlisted.walks_handled {x : Handler} {x' : Option Handler}
    (h : Unlisted shard raftPort ip₀ s) (hx : x ∈ s.handlers)
    (hst : Handled shard raftPort s.configuration x c' x') {r ip : String} {ms : List Server}
    (hy : ⟨.join r ip, .walking ms⟩ ∈ x') {m : Server} (hm : m ∈ ms)
    (he : m.address = raftAddress ip raftPort) : m.id = raftId r shard raftPort ∧ ip = ip₀ := by
  cases hst with
  | reads r ip =>
    cases hy
    exact h.free r ip (.inl (List.mem_append_right _ (List.mem_map.2 ⟨_, hx, rfl⟩))) m hm he
  | passes hid =>
    cases hy
    exact h.walks _ _ _ hx m (List.mem_cons_of_mem _ hm) he
  | removes _ _ hrest =>
    cases hrest _ hy
    exact h.walks _ _ _ hx m (List.mem_cons_of_mem _ hm) he
  | adds => cases hy
  | demotes => cases hy
  | ends => cases hy

theorem Unlisted.walks_next (h : Unlisted shard raftPort ip₀ s)
    (hst : Members.next shard raftPort s l = some s') {r ip : String} {ms : List Server}
    (hy : ⟨.join r ip, .walking ms⟩ ∈ s'.handlers) {m : Server} (hm : m ∈ ms)
    (he : m.address = raftAddress ip raftPort) : m.id = raftId r shard raftPort ∧ ip = ip₀ := by
  obtain ⟨_, _, _, rfl, -, rfl⟩ | ⟨_, _, _, _, _, rfl, -, -, rfl⟩ | ⟨_, _, _, rfl, -, -, rfl⟩ |
    ⟨_, rfl, rfl⟩ | ⟨q, rfl, -, rfl⟩ | ⟨x, a, rfl, hx, rfl⟩ | ⟨_, rfl, rfl⟩ | ⟨_, rfl, rfl⟩ :=
    next_cases hst
  · exact h.walks r ip ms hy m hm he
  · exact h.walks r ip ms hy m hm he
  · exact h.walks r ip ms hy m hm he
  · exact h.walks r ip ms hy m hm he
  · rcases List.mem_cons.1 hy with hnew | hy
    · cases hnew
    · exact h.walks r ip ms hy m hm he
  · rcases List.mem_append.1 hy with hy | hy
    · exact h.walks_handled hx (x.handled a s.configuration) (Option.mem_toList.1 hy) hm he
    · exact h.walks r ip ms (List.mem_of_mem_erase hy) m hm he
  · exact h.walks r ip ms hy m hm he
  · exact h.walks r ip ms (List.mem_of_mem_erase hy) m hm he

theorem Unlisted.next (h : Unlisted shard raftPort ip₀ s) (hl : Fresh raftPort s l)
    (hst : Members.next shard raftPort s l = some s') : Unlisted shard raftPort ip₀ s' where
  nodup := h.nodup_next hst
  distinct _ _ _ _ hp hp' he := h.distinct_next hl hst hp hp' he
  unsent _ _ hp hunsent := h.unsent_next hl hst hp hunsent
  free _ _ hpending := h.free_next hl hst hpending
  walks _ _ _ hy _ hm he := h.walks_next hst hy hm he

/-! ### The `Join` of a replica with a fresh address -/

/-- The label is a step of a request of the replica. -/
def Serves (r : String) (l : Label) : Prop := ∃ h a, l = .handle h a ∧ h.request.replica = r

/-- A handler removes and demotes no replica but its own. -/
theorem Unlisted.mem_handled {x : Handler} {x' : Option Handler} {r : String} {m : Server}
    (h : Unlisted shard raftPort ip₀ s) (hx : x ∈ s.handlers)
    (hst : Handled shard raftPort s.configuration x c' x') (hr : x.request.replica ≠ r)
    (hm : m ∈ s.configuration.servers) (hid : m.id = raftId r shard raftPort) :
    m ∈ c'.servers := by
  have hne : m.id ≠ raftId x.request.replica shard raftPort := by
    rw [hid]
    exact fun he => hr (raftId_injective he).symm
  cases hst with
  | reads | passes | ends => exact hm
  | @removes r' ip' m' ms x' hclash hexact hrest =>
    have hid' : m'.id = raftId r' shard raftPort :=
      hclash.elim (fun h => h) fun he => (h.walks _ _ _ hx m' List.mem_cons_self he).1
    rw [hid']
    exact mem_removeServer_of_ne hm hne
  | adds hadd => exact mem_addVoter_of_ne hadd hm hne
  | demotes r' ip' stage => exact mem_demoteVoter_of_ne hm hne

theorem Unlisted.voter_next {r : String} {m : Server} (h : Unlisted shard raftPort ip₀ s)
    (hm : m ∈ s.configuration.servers) (hid : m.id = raftId r shard raftPort) (hr : ¬ Serves r l)
    (hst : Members.next shard raftPort s l = some s') : m ∈ s'.configuration.servers := by
  rcases configuration_next hst with hsame | ⟨x, a, c', x', rfl, hx, hhandled, rfl⟩
  · rw [hsame]
    exact hm
  · exact h.mem_handled hx hhandled (fun he => hr ⟨x, a, rfl, he⟩) hm hid

/-- The last step of a `Join` with a fresh address, when it succeeds, adds the replica. -/
theorem Unlisted.voter_of_returns {r ip : String} {stage : Stage}
    (h : Unlisted shard raftPort ip₀ s) (hip : ip ≠ ip₀) (hx : ⟨.join r ip, stage⟩ ∈ s.handlers)
    (hend : (Handler.step shard raftPort .ok s.configuration ⟨.join r ip, stage⟩).2 = none) :
    ⟨.voter, raftId r shard raftPort, raftAddress ip raftPort⟩ ∈
      (Handler.step shard raftPort .ok s.configuration ⟨.join r ip, stage⟩).1.servers := by
  cases stage with
  | called => cases hend
  | walking ms =>
    cases ms with
    | nil =>
      have hfree : ∀ m ∈ s.configuration.servers, m.address ≠ raftAddress ip raftPort :=
        fun m hm he => hip (h.free r ip
          (.inl (List.mem_append_right _ (List.mem_map.2 ⟨_, hx, rfl⟩))) m hm he).2
      obtain ⟨c', hadd, hvoter⟩ := exists_addVoter (raftId r shard raftPort) hfree
      simp only [Handler.step, hadd]
      exact hvoter
    | cons m ms =>
      -- the loop never meets the replica, so it does not return from here
      simp only [Handler.step] at hend
      split_ifs at hend with hclash hexact
      exact absurd (h.walks _ _ _ hx m List.mem_cons_self hexact.2).2 hip

/-- **A replica with a fresh address becomes a voter and stays one.**  Take any run in which every
process is started with an address that no server, process or request has at that moment, with any
crashes, lost and late requests and handlers that overtake each other.  When the handler of the
`Join` of a process, other than the one that bootstrapped the group, returns after a call that has
succeeded, the replica is a voter at its address from then on, whatever the other replicas do, until
another request of this replica is served. -/
theorem voter_of_join {r₀ ip₀ localAddr r ip : String} {replicas : List String} {stage : Stage}
    {s₁ : Members} (hs : (machine shard raftPort).ReachedBy (Fresh raftPort)
      (bootstrapped shard raftPort r₀ ip₀ localAddr replicas) s) (hip : ip ≠ ip₀)
    (hjoin : (machine shard raftPort).next s (.handle ⟨.join r ip, stage⟩ .ok) = some s₁)
    (hend : (Handler.step shard raftPort .ok s.configuration ⟨.join r ip, stage⟩).2 = none)
    (hs' : (machine shard raftPort).ReachedBy
      (fun s l => Fresh raftPort s l ∧ ¬ Serves r l) s₁ s') :
    ⟨.voter, raftId r shard raftPort, raftAddress ip raftPort⟩ ∈ s'.configuration.servers := by
  have hinv : Unlisted shard raftPort ip₀ s := hs.invariant (I := Unlisted shard raftPort ip₀)
    (unlisted_bootstrapped r₀ localAddr replicas) fun _ _ _ h hl hst => h.next hl hst
  have hinv₁ : Unlisted shard raftPort ip₀ s₁ :=
    hinv.next (l := .handle ⟨.join r ip, stage⟩ .ok) trivial hjoin
  have hvoter : ⟨.voter, raftId r shard raftPort, raftAddress ip raftPort⟩ ∈
      s₁.configuration.servers := by
    change Members.next shard raftPort s (.handle ⟨.join r ip, stage⟩ .ok) = some s₁ at hjoin
    simp only [Members.next] at hjoin
    split_ifs at hjoin with hx
    cases hjoin
    exact hinv.voter_of_returns hip hx hend
  refine (hs'.invariant (I := fun s => Unlisted shard raftPort ip₀ s ∧
    ⟨.voter, raftId r shard raftPort, raftAddress ip raftPort⟩ ∈ s.configuration.servers)
    ⟨hinv₁, hvoter⟩ ?_).2
  rintro s₂ l s₃ ⟨h, hm⟩ hl hst
  exact ⟨h.next hl.1 hst, h.voter_next hm rfl hl.2 hst⟩

/-- The replica `b` joins at a fresh address; then the first replica is killed. -/
theorem voter_of_join_fresh :
    ∃ s' : Members, (machine "s" 1).ReachedBy (fun s l => Fresh 1 s l ∧ ¬ Serves "b" l)
        (after (joined "ip")) s' ∧
      (⟨.voter, "b.s:1", "ip:1"⟩ : Server) ∈ s'.configuration.servers := by
  have hs : (machine "s" 1).ReachedBy (Fresh 1) (bootstrapped "s" 1 "a" "a" "a:1" ["a", "b"])
      (after ((joined "ip").take 9)) := by
    refine .head (l := .start "b" "ip" ["a", "b"]) ⟨by decide, by decide, ?_⟩ rfl ?_
    · intro r p hp he
      obtain ⟨-, rfl⟩ := process_bootstrapped hp
      exact absurd he (by decide)
    · exact .of_run ((joined "ip").tail.take 8) (by simp [joined, comes, joins, Fresh]) rfl
  have hs' : (machine "s" 1).ReachedBy (fun s l => Fresh 1 s l ∧ ¬ Serves "b" l)
      (after (joined "ip")) (after (joined "ip" ++ [.kill "a"])) := by
    refine .head (l := .kill "a") ⟨trivial, ?_⟩ rfl .start
    rintro ⟨h, a, he, -⟩
    cases he
  have hjoin : (machine "s" 1).next (after ((joined "ip").take 9))
      (.handle ⟨.join "b" "ip", .walking []⟩ .ok) = some (after (joined "ip")) := rfl
  exact ⟨_, hs', voter_of_join hs (by decide) hjoin rfl hs'⟩

end Fresh

end Members

end Raft

end ShardedKvs
