import Mathlib.Data.Fin.VecNotation
import Mathlib.Data.Finset.Insert
import Mathlib.Data.Fintype.Basic
import Mathlib.Tactic.Common
import ShardedKvs.Config.Basic
import ShardedKvs.Machine.Basic

/-!
# Reloading the ring

Every replica process routes with a ring of its own.  It is built from the mounted configuration
when the process starts, and again when `ReloadConfig` finds a configuration without `newShards`:
such a configuration is taken as the sign that the scale operation is over.  The mounted
configuration follows the ConfigMap at its own pace, and the one from before the scale operation
has no `newShards` either.

`ReloadConfig` reads the mounted configuration first and assigns the ring later, and several calls
of it may be under way on one process: those of `shardRpcServer.ResumeWrites`, those of
`replicaRpcServer.ResumeWrites`, and those that their callers have given up.

* `Resize` : a scale operation, with the three versions of the ConfigMap (`Resize.config`).
* `Rings.machine` : every interleaving of mounts, restarts, pauses, resumes and reloads, served by
  any replica (so for any sequence of leaders).
* `Rings.Effect` : what a step can do to the mounts, the rings and the reloads under way.
* `Rings.agree_of_fresh` : **all rings agree in `Normal`, if no reload that is under way on a
  replica has read the version from before the scale operation when a resume call has that replica
  reloaded**, and the answering leaders know all replicas of their shard.
* `Rings.not_agree` : a follower whose mount is late keeps the old ring.
-/

namespace ShardedKvs

/-- The versions of the ConfigMap around one scale operation. -/
inductive Version where
  | before
  | during
  | after
  deriving DecidableEq

/-- The order in which the versions are written. -/
def Version.index : Version → ℕ
  | .before => 0
  | .during => 1
  | .after => 2

/-- A scale operation of a store with replica processes `R`. -/
structure Resize (R : Type*) where
  name : String
  replicas : ℕ
  currentShards : ℕ
  targetShards : ℕ
  current_pos : currentShards ≠ 0
  target_pos : targetShards ≠ 0
  current_ne : currentShards ≠ targetShards
  /-- The index of the shard of each process. -/
  home : R → ℕ
  /-- The keys of the map `replicaClients` of each process. -/
  replicaClients : R → Finset R

/-- A call of `replicaRpcServer.ResumeWrites` that is reloading the replicas of its shard, in the
order in which Go ranges over the map. -/
structure ResumeCall (R : Type*) where
  leader : R
  todo : Finset R
  reloadSuccessful : Bool
  /-- The replica whose `ReloadConfig` the call waits for, with the version that it has read. -/
  waiting : Option (R × Version)

/-- The rings of all processes during a scale operation. -/
structure Rings (R : Type*) where
  phase : Phase
  /-- The version of the ConfigMap. -/
  version : Version
  /-- The version that each process has mounted. -/
  mount : R → Version
  /-- The members of the ring `ch` of each process. -/
  ch : R → List String
  calls : List (ResumeCall R)
  /-- The calls of `ReloadConfig` that no resume call waits for and that have not assigned `ch` yet,
  with the version that each has read. -/
  reloads : List (R × Version)
  /-- The shards that have answered `IsPaused` or `IsResumed` in this `Reconcile`. -/
  yes : ℕ → Bool

variable {R : Type*}

/-- The contents of the versions. -/
def Resize.config (Z : Resize R) : Version → KVStoreConfig
  | .before => kvConfig Z.name Z.replicas Z.currentShards Z.currentShards
  | .during => kvConfig Z.name Z.replicas Z.currentShards Z.targetShards
  | .after => kvConfig Z.name Z.replicas Z.targetShards Z.targetShards

/-- The ring over exactly the `TargetShards` shards. -/
def Resize.targetRing (Z : Resize R) : List String :=
  (List.range Z.targetShards).map (shardName Z.name)

namespace Rings

/-- The steps of a scale operation that concern the rings. -/
inductive Label (R : Type*) where
  /-- The mounted configuration of `r` moves to the version `v`. -/
  | mount (r : R) (v : Version)
  | restart (r : R)
  /-- `replicaRpcServer.PauseWrites` on `r`. -/
  | pause (r : R)
  /-- `replicaRpcServer.RedistributeKeys` on `r`. -/
  | redistribute (r : R)
  /-- `ReloadConfig` on `r` reads the mounted configuration, for a `shardRpcServer.ResumeWrites`
  that ignores the answer. -/
  | reload (r : R)
  /-- The `j`-th reload that no resume call waits for assigns the ring. -/
  | assign (j : ℕ)
  /-- `replicaRpcServer.ResumeWrites` on `r` starts. -/
  | resume (r : R)
  /-- The `i`-th resume call has `q` reload, which reads its mounted configuration. -/
  | reloadNext (i : ℕ) (q : R)
  /-- The reload that the `i`-th resume call waits for assigns the ring and answers. -/
  | reloaded (i : ℕ)
  /-- The `i`-th resume call cannot reach a replica, or gets no answer from it. -/
  | giveUp (i : ℕ)
  /-- The `i`-th resume call answers, after `SetWritesEnabled` if all reloads have succeeded. -/
  | answer (i : ℕ) (enabled : Bool)
  /-- A new `Reconcile` starts. -/
  | reconcile
  /-- `FinalizeScale` writes the ConfigMap. -/
  | updateConfigMap
  /-- The controller persists the next phase. -/
  | advance

variable [DecidableEq R] (Z : Resize R)

omit [DecidableEq R] in
/-- The calls of `ReloadConfig` that have read the configuration and have not assigned `ch` yet. -/
def flights (s : Rings R) : List (R × Version) := s.reloads ++ s.calls.filterMap ResumeCall.waiting

/-- A reload assigns the ring of the version that it has read. -/
def assign (s : Rings R) (p : R × Version) : Rings R :=
  { s with ch := Function.update s.ch p.1 (Z.config p.2).members }

omit [DecidableEq R] in
/-- The next phase, if the answers of this `Reconcile` allow it.  Whether all keys have moved does
not depend on the rings. -/
def advance (s : Rings R) : Option (Rings R) :=
  match s.phase with
  | .stoppingWrites =>
    if ∀ x < max Z.currentShards Z.targetShards, s.yes x = true then
      some { s with phase := .redistributingKeys, yes := fun _ => false }
    else none
  | .redistributingKeys => some { s with phase := .finalizingScale, yes := fun _ => false }
  | .finalizingScale =>
    if s.version = .after then some { s with phase := .resumingWrites, yes := fun _ => false }
    else none
  | .resumingWrites =>
    if ∀ x < Z.targetShards, s.yes x = true then
      some { s with phase := .normal, yes := fun _ => false }
    else none
  | _ => none

/-- Resume call `i` has `q` reload. -/
def reloadNext (s : Rings R) (i : ℕ) (q : R) : Option (Rings R) :=
  s.calls[i]?.bind fun c =>
    if q ∈ c.todo ∧ c.waiting = none then
      match (Z.config (s.mount q)).reload with
      | none =>
        some { s with
          calls := s.calls.set i { c with todo := c.todo.erase q, reloadSuccessful := false } }
      | some _ => some { s with calls := s.calls.set i { c with waiting := some (q, s.mount q) } }
    else none

/-- The reload that resume call `i` waits for is done. -/
def reloaded (s : Rings R) (i : ℕ) : Option (Rings R) :=
  s.calls[i]?.bind fun c => c.waiting.map fun p =>
    { s.assign Z p with
      calls := s.calls.set i { c with todo := c.todo.erase p.1, waiting := none } }

omit [DecidableEq R] in
/-- Resume call `i` answers `IsResumed: false`, while the reload that it waits for goes on. -/
def giveUp (s : Rings R) (i : ℕ) : Option (Rings R) :=
  s.calls[i]?.map fun c =>
    { s with calls := s.calls.eraseIdx i, reloads := s.reloads ++ c.waiting.toList }

/-- The answer of resume call `i`. -/
def answer (s : Rings R) (i : ℕ) (enabled : Bool) : Option (Rings R) :=
  s.calls[i]?.bind fun c =>
    if c.todo = ∅ then
      some { s with
        calls := s.calls.eraseIdx i
        yes := if c.reloadSuccessful && enabled then Function.update s.yes (Z.home c.leader) true
          else s.yes }
    else none

/-- The process of `r` ends, with all that runs on it, and is started again.  The reloads that it
was waiting for go on, and the calls that were waiting for it get an error. -/
def restart (s : Rings R) (r : R) : Rings R :=
  { s with
    ch := Function.update s.ch r (Z.config (s.mount r)).members
    calls := s.calls.filter fun c => c.leader ≠ r ∧ c.waiting.map Prod.fst ≠ some r
    reloads := (s.reloads ++
      (s.calls.filter fun c => c.leader = r).filterMap ResumeCall.waiting).filter (·.1 ≠ r) }

/-- One step. -/
def next (s : Rings R) : Label R → Option (Rings R)
  | .mount r v =>
    -- versions may be skipped, but never go back or run ahead of the ConfigMap
    if (s.mount r).index ≤ v.index ∧ v.index ≤ s.version.index then
      some { s with mount := Function.update s.mount r v }
    else none
  | .restart r => some (s.restart Z r)
  | .pause r =>
    if s.phase ≠ .stoppingWrites then none
    else if (Z.config (s.mount r)).newShards = [] then some s
    else some { s with yes := Function.update s.yes (Z.home r) true }
  | .redistribute _ => if s.phase = .redistributingKeys then some s else none
  | .reload r =>
    match (Z.config (s.mount r)).reload with
    | none => some s
    | some _ => some { s with reloads := s.reloads ++ [(r, s.mount r)] }
  | .assign j => s.reloads[j]?.map fun p => { s.assign Z p with reloads := s.reloads.eraseIdx j }
  | .resume r =>
    if s.phase ≠ .resumingWrites then none
    else if (Z.config (s.mount r)).newShards ≠ [] then some s
    -- the version from before the scale operation gets here too
    else some { s with calls := s.calls ++ [⟨r, Z.replicaClients r, true, none⟩] }
  | .reloadNext i q => s.reloadNext Z i q
  | .reloaded i => s.reloaded Z i
  | .giveUp i => s.giveUp i
  | .answer i enabled => s.answer Z i enabled
  | .reconcile => some { s with yes := fun _ => false }
  | .updateConfigMap =>
    if s.phase = .finalizingScale then some { s with version := .after } else none
  | .advance => s.advance Z

/-- Every interleaving of the mounts, the calls and the controller. -/
def machine : Machine (Rings R) (Label R) := ⟨next Z⟩

omit [DecidableEq R] in
/-- The state when the controller enters `StoppingWrites`. -/
def start : Rings R where
  phase := .stoppingWrites
  version := .during
  mount _ := .before
  ch _ := (Z.config .before).members
  calls := []
  reloads := []
  yes _ := false

/-- Every replica of every remaining shard routes with the target ring. -/
def Agree (s : Rings R) : Prop := ∀ r, Z.home r < Z.targetShards → s.ch r = Z.targetRing

/-- A resume call is served by a replica that knows all replicas of its shard.  When the reload that
it waits for is done, no reload that is under way on that replica, this one included, has read the
version from before the scale operation. -/
def Fresh (s : Rings R) : Label R → Prop
  | .resume r => ∀ q, Z.home q = Z.home r → q ∈ Z.replicaClients r
  | .reloaded i => ∀ c ∈ s.calls[i]?, ∀ p ∈ c.waiting, (p.1, .before) ∉ s.flights
  | _ => True

/-! ### The versions -/

omit [DecidableEq R] in
theorem members_after : (Z.config .after).members = Z.targetRing := by
  unfold Resize.config KVStoreConfig.members
  rw [kvConfig_self _ _ Z.target_pos]
  exact map_name_shardConfig _ _ _

omit [DecidableEq R] in
theorem newShards_during : (Z.config .during).newShards ≠ [] := by
  unfold Resize.config
  rw [kvConfig_of_ne _ _ Z.current_ne Z.current_pos]
  intro h
  exact Z.target_pos (List.range_eq_nil.1 (List.map_eq_nil_iff.1 h))

omit [DecidableEq R] in
/-- A configuration with new shards is not assigned. -/
theorem ne_during_of_reload {v : Version} {members : List String}
    (h : (Z.config v).reload = some members) : v ≠ .during := by
  rintro rfl
  unfold KVStoreConfig.reload at h
  rw [if_pos (newShards_during Z)] at h
  cases h

/-! ### What a step can do -/

variable {Z} {s s' : Rings R} {q r : R}

/-- What a step can do to the mounts, the reloads under way and the rings: mounts do not go back, a
new reload has read the version that is mounted, and a ring is assigned by a restart or by a reload
that was under way. -/
structure Effect (Z : Resize R) (s s' : Rings R) : Prop where
  mount : ∀ q, (s.mount q).index ≤ (s'.mount q).index
  flights : ∀ p ∈ s'.flights, p ∈ s.flights ∨ p.2 = s.mount p.1 ∧ p.2 ≠ .during
  ch : ∀ q, s'.ch q = s.ch q ∨
    ∃ v, s'.ch q = (Z.config v).members ∧ (v = s.mount q ∨ (q, v) ∈ s.flights)

omit [DecidableEq R] in
theorem mem_flights {p : R × Version} :
    p ∈ s.flights ↔ p ∈ s.reloads ∨ ∃ c ∈ s.calls, c.waiting = some p := by
  simp only [flights, List.mem_append, List.mem_filterMap]

omit [DecidableEq R] in
theorem mem_flights_of_waiting {i : ℕ} {c : ResumeCall R} {p : R × Version}
    (hc : s.calls[i]? = some c) (hp : c.waiting = some p) : p ∈ s.flights :=
  mem_flights.2 (.inr ⟨c, List.mem_of_getElem? hc, hp⟩)

omit [DecidableEq R] in
/-- The reloads under way after call `i` has gone on as `c'`. -/
theorem mem_flights_set {i : ℕ} {c' : ResumeCall R} {p : R × Version} (h : p ∈ s'.flights)
    (hreloads : s'.reloads = s.reloads) (hcalls : s'.calls = s.calls.set i c') :
    p ∈ s.flights ∨ c'.waiting = some p := by
  rcases mem_flights.1 h with hp | ⟨c, hc, hw⟩
  · exact .inl (mem_flights.2 (.inl (hreloads ▸ hp)))
  · rw [hcalls] at hc
    rcases List.mem_or_eq_of_mem_set hc with hmem | rfl
    · exact .inl (mem_flights.2 (.inr ⟨c, hmem, hw⟩))
    · exact .inr hw

omit [DecidableEq R] in
/-- A step that assigns no ring, and starts no reload. -/
theorem Effect.of_flights (hmount : s'.mount = s.mount) (hch : s'.ch = s.ch)
    (hflights : ∀ p ∈ s'.flights, p ∈ s.flights) : Effect Z s s' :=
  ⟨fun q => by rw [hmount], fun p hp => .inl (hflights p hp), fun q => .inl (by rw [hch])⟩

omit [DecidableEq R] in
/-- A step that touches neither mounts nor rings nor reloads, and starts no call. -/
theorem Effect.of_calls (hmount : s'.mount = s.mount) (hch : s'.ch = s.ch)
    (hreloads : s'.reloads = s.reloads) (hcalls : ∀ c ∈ s'.calls, c ∈ s.calls) :
    Effect Z s s' := by
  refine .of_flights hmount hch fun p hp => mem_flights.2 ?_
  rcases mem_flights.1 hp with hp | ⟨c, hc, hw⟩
  · exact .inl (hreloads ▸ hp)
  · exact .inr ⟨c, hcalls c hc, hw⟩

/-- A reload that was under way assigns the ring. -/
theorem Effect.of_assign {p : R × Version} (hp : p ∈ s.flights) (hmount : s'.mount = s.mount)
    (hch : s'.ch = (s.assign Z p).ch) (hflights : ∀ p ∈ s'.flights, p ∈ s.flights) :
    Effect Z s s' := by
  refine ⟨fun q => by rw [hmount], fun p hp => .inl (hflights p hp), fun q => ?_⟩
  rw [hch]
  by_cases hq : q = p.1
  · subst hq
    exact .inr ⟨p.2, Function.update_self .., .inr hp⟩
  · exact .inl (Function.update_of_ne hq ..)

theorem effect_mount {r : R} {v : Version} (hv : (s.mount r).index ≤ v.index) :
    Effect Z s { s with mount := Function.update s.mount r v } := by
  refine ⟨fun q => ?_, fun p hp => .inl hp, fun _ => .inl rfl⟩
  by_cases hq : q = r
  · subst hq
    simp only [Function.update_self]
    exact hv
  · simp only [Function.update_of_ne hq, le_refl]

omit [DecidableEq R] in
/-- A reload that no call waits for reads the mounted configuration. -/
theorem effect_reload {r : R} {members : List String}
    (hr : (Z.config (s.mount r)).reload = some members) :
    Effect Z s { s with reloads := s.reloads ++ [(r, s.mount r)] } := by
  refine ⟨fun _ => le_rfl, fun p hp => ?_, fun _ => .inl rfl⟩
  rcases mem_flights.1 hp with hp | hp
  · rcases List.mem_append.1 hp with hp | hp
    · exact .inl (mem_flights.2 (.inl hp))
    · rw [List.mem_singleton.1 hp]
      exact .inr ⟨rfl, ne_during_of_reload Z hr⟩
  · exact .inl (mem_flights.2 (.inr hp))

theorem effect_assign {j : ℕ} {p : R × Version} (hp : s.reloads[j]? = some p) :
    Effect Z s { s.assign Z p with reloads := s.reloads.eraseIdx j } := by
  refine .of_assign (mem_flights.2 (.inl (List.mem_of_getElem? hp))) rfl rfl fun p' hp' => ?_
  exact mem_flights.2 ((mem_flights.1 hp').imp_left List.mem_of_mem_eraseIdx)

theorem effect_reloadNext {i : ℕ} (h : s.reloadNext Z i q = some s') : Effect Z s s' := by
  obtain ⟨c, hc, h⟩ := Option.bind_eq_some_iff.1 h
  split_ifs at h with hq
  split at h <;> cases h
  · refine .of_flights rfl rfl fun p hp =>
      (mem_flights_set (s := s) hp rfl rfl).resolve_right fun hw => ?_
    rw [hq.2] at hw
    cases hw
  · rename_i members hmembers
    refine ⟨fun _ => le_rfl, fun p hp => ?_, fun _ => .inl rfl⟩
    rcases mem_flights_set (s := s) hp rfl rfl with hp | hw
    · exact .inl hp
    · cases hw
      exact .inr ⟨rfl, ne_during_of_reload Z hmembers⟩

theorem effect_reloaded {i : ℕ} (h : s.reloaded Z i = some s') : Effect Z s s' := by
  obtain ⟨c, hc, h⟩ := Option.bind_eq_some_iff.1 h
  obtain ⟨p, hp, rfl⟩ := Option.map_eq_some_iff.1 h
  refine .of_assign (mem_flights_of_waiting hc hp) rfl rfl fun p' hp' => ?_
  refine (mem_flights_set (s := s) hp' rfl rfl).resolve_right fun hw => ?_
  cases hw

omit [DecidableEq R] in
theorem effect_giveUp {i : ℕ} (h : s.giveUp i = some s') : Effect Z s s' := by
  obtain ⟨c, hc, rfl⟩ := Option.map_eq_some_iff.1 h
  refine .of_flights rfl rfl fun p hp => ?_
  rcases mem_flights.1 hp with hp | ⟨c', hc', hw⟩
  · rcases List.mem_append.1 hp with hp | hp
    · exact mem_flights.2 (.inl hp)
    · exact mem_flights_of_waiting hc (Option.mem_toList.1 hp)
  · exact mem_flights.2 (.inr ⟨c', List.mem_of_mem_eraseIdx hc', hw⟩)

theorem effect_restart (r : R) : Effect Z s (s.restart Z r) := by
  refine ⟨fun _ => le_rfl, fun p hp => .inl (mem_flights.2 ?_), fun q => ?_⟩
  · rcases mem_flights.1 hp with hp | ⟨c, hc, hw⟩
    · rcases List.mem_append.1 (List.mem_of_mem_filter hp) with hp | hp
      · exact .inl hp
      · obtain ⟨c, hc, hw⟩ := List.mem_filterMap.1 hp
        exact .inr ⟨c, List.mem_of_mem_filter hc, hw⟩
    · exact .inr ⟨c, List.mem_of_mem_filter hc, hw⟩
  · by_cases hq : q = r
    · subst hq
      exact .inr ⟨s.mount q, Function.update_self .., .inl rfl⟩
    · exact .inl (Function.update_of_ne hq ..)

theorem effect_of_next {l : Label R} (hst : s.next Z l = some s') : Effect Z s s' := by
  cases l with
  | mount r v =>
    simp only [Rings.next] at hst
    split_ifs at hst with hv; cases hst
    exact effect_mount hv.1
  | restart r => cases hst; exact effect_restart r
  | pause r =>
    simp only [Rings.next] at hst
    split_ifs at hst <;> (cases hst; exact .of_calls rfl rfl rfl fun _ hc => hc)
  | redistribute r | updateConfigMap =>
    simp only [Rings.next] at hst
    split_ifs at hst; cases hst
    exact .of_calls rfl rfl rfl fun _ hc => hc
  | reload r =>
    simp only [Rings.next] at hst
    split at hst <;> cases hst
    · exact .of_calls rfl rfl rfl fun _ hc => hc
    · exact effect_reload (by assumption)
  | assign j =>
    obtain ⟨p, hp, rfl⟩ := Option.map_eq_some_iff.1 hst
    exact effect_assign hp
  | resume r =>
    simp only [Rings.next] at hst
    split_ifs at hst <;> cases hst
    · exact .of_calls rfl rfl rfl fun _ hc => hc
    · -- the new call does not wait for a reload yet
      refine .of_flights rfl rfl fun p hp => ?_
      simp only [flights, List.filterMap_append, List.filterMap_cons_none, List.filterMap_nil,
        List.append_nil] at hp
      exact hp
  | reloadNext i q => exact effect_reloadNext hst
  | reloaded i => exact effect_reloaded hst
  | giveUp i => exact effect_giveUp hst
  | answer i enabled =>
    obtain ⟨c, -, hst⟩ := Option.bind_eq_some_iff.1 hst
    split at hst <;> cases hst
    exact .of_calls rfl rfl rfl fun _ hc => List.mem_of_mem_eraseIdx hc
  | reconcile => cases hst; exact .of_calls rfl rfl rfl fun _ hc => hc
  | advance =>
    simp only [Rings.next, Rings.advance] at hst
    split at hst
    all_goals first
      | (split_ifs at hst; cases hst; exact .of_calls rfl rfl rfl fun _ hc => hc)
      | (cases hst; exact .of_calls rfl rfl rfl fun _ hc => hc)
      | cases hst

/-! ### Replicas that have arrived -/

/-- The replica has mounted the last version and routes with the target ring, and no reload that is
under way on it will assign another one. -/
structure Arrived (Z : Resize R) (s : Rings R) (r : R) : Prop where
  mount : s.mount r = .after
  ch : s.ch r = Z.targetRing
  flights : ∀ v, (r, v) ∈ s.flights → v = .after

theorem Version.eq_after_of_le {v : Version} (h : Version.after.index ≤ v.index) : v = .after := by
  cases v with
  | before | during => exact absurd h (by decide)
  | after => rfl

omit [DecidableEq R] in
theorem Arrived.effect (h : Arrived Z s q) (he : Effect Z s s') : Arrived Z s' q := by
  refine ⟨Version.eq_after_of_le (h.mount ▸ he.mount q), ?_, fun v hv => ?_⟩
  · rcases he.ch q with hch | ⟨v, hch, hv⟩
    · rw [hch, h.ch]
    · have hafter : v = .after := hv.elim (fun hv => hv.trans h.mount) (h.flights v)
      rw [hch, hafter, members_after]
  · exact (he.flights _ hv).elim (h.flights v) fun hv => hv.1.trans h.mount

/-- The reloads under way have read a version without new shards, and not one that is still to
come. -/
def Grounded (s : Rings R) : Prop :=
  ∀ p ∈ s.flights, p.2 ≠ .during ∧ p.2.index ≤ (s.mount p.1).index

omit [DecidableEq R] in
theorem Grounded.effect (h : Grounded s) (he : Effect Z s s') : Grounded s' := by
  intro p hp
  rcases he.flights p hp with hp | ⟨hv, hne⟩
  · exact ⟨(h p hp).1, (h p hp).2.trans (he.mount p.1)⟩
  · exact ⟨hne, hv ▸ he.mount p.1⟩

/-- A reload is done on a replica on which none of those under way has read the first version. -/
theorem arrived_of_assign {p : R × Version} (hg : Grounded s) (hp : p ∈ s.flights)
    (hfresh : (p.1, .before) ∉ s.flights) (he : Effect Z s s')
    (hch : s'.ch = (s.assign Z p).ch) : Arrived Z s' p.1 := by
  have hafter : ∀ v, (p.1, v) ∈ s.flights → v = .after := by
    intro v hv
    cases v with
    | before => exact absurd hv hfresh
    | during => exact absurd rfl (hg _ hv).1
    | after => rfl
  have hmount : s.mount p.1 = .after :=
    Version.eq_after_of_le (hafter p.2 hp ▸ (hg p hp).2)
  refine ⟨Version.eq_after_of_le (hmount ▸ he.mount p.1), ?_, fun v hv => ?_⟩
  · rw [hch, ← members_after, ← hafter p.2 hp]
    exact Function.update_self ..
  · exact (he.flights _ hv).elim (hafter v) fun hv => hv.1.trans hmount

/-! ### The resume calls -/

/-- The replicas that a successful resume call has passed have arrived. -/
def CallOk (Z : Resize R) (s : Rings R) (c : ResumeCall R) : Prop :=
  c.reloadSuccessful = true → ∀ q, Z.home q = Z.home c.leader → q ∈ c.todo ∨ Arrived Z s q

/-- The invariant of the rings: what the resume calls and their answers say about the replicas. -/
structure Inv (Z : Resize R) (s : Rings R) : Prop where
  grounded : Grounded s
  calls : ∀ c ∈ s.calls, CallOk Z s c
  yes : s.phase = .resumingWrites → ∀ x, s.yes x = true → ∀ q, Z.home q = x → Arrived Z s q
  normal : s.phase = .normal → ∀ q, Z.home q < Z.targetShards → Arrived Z s q

omit [DecidableEq R] in
theorem CallOk.effect {c : ResumeCall R} (h : CallOk Z s c) (he : Effect Z s s') : CallOk Z s' c :=
  fun hc q hq => (h hc q hq).imp_right fun ha => ha.effect he

omit [DecidableEq R] in
/-- A step that stays in its phase and takes no answer. -/
theorem Inv.frame (h : Inv Z s) (he : Effect Z s s') (hphase : s'.phase = s.phase)
    (hcalls : ∀ c ∈ s'.calls, c ∈ s.calls ∨ CallOk Z s' c)
    (hyes : s.phase = .resumingWrites → ∀ x, s'.yes x = true → s.yes x = true) : Inv Z s' := by
  refine ⟨h.grounded.effect he,
    fun c hc => (hcalls c hc).elim (fun hc => (h.calls c hc).effect he) id,
    fun hp x hx q hq => ?_, fun hp q hq => ?_⟩
  · rw [hphase] at hp
    exact (h.yes hp x (hyes hp x hx) q hq).effect he
  · rw [hphase] at hp
    exact (h.normal hp q hq).effect he

/-- A resume call asks a replica: it waits for the reload, or learns that there are new shards. -/
theorem Inv.reloadNext {i : ℕ} (h : Inv Z s) (hst : s.reloadNext Z i q = some s') : Inv Z s' := by
  have he := effect_reloadNext hst
  obtain ⟨c, hc, hst⟩ := Option.bind_eq_some_iff.1 hst
  split_ifs at hst
  split at hst <;> cases hst
  · refine h.frame he rfl (fun c' hc' => ?_) fun _ _ hx => hx
    rcases List.mem_or_eq_of_mem_set hc' with hmem | rfl
    · exact .inl hmem
    · exact .inr fun hok => by cases hok
  · refine h.frame he rfl (fun c' hc' => ?_) fun _ _ hx => hx
    rcases List.mem_or_eq_of_mem_set hc' with hmem | rfl
    · exact .inl hmem
    · exact .inr ((h.calls c (List.mem_of_getElem? hc)).effect he :)

theorem Inv.reloaded {i : ℕ} (h : Inv Z s) (hg : s.Fresh Z (.reloaded i))
    (hst : s.reloaded Z i = some s') : Inv Z s' := by
  have he := effect_reloaded hst
  obtain ⟨c, hc, hst⟩ := Option.bind_eq_some_iff.1 hst
  obtain ⟨p, hp, rfl⟩ := Option.map_eq_some_iff.1 hst
  have harrived :=
    arrived_of_assign h.grounded (mem_flights_of_waiting hc hp) (hg c hc p hp) he rfl
  refine h.frame he rfl (fun c' hc' => ?_) fun _ _ hx => hx
  rcases List.mem_or_eq_of_mem_set hc' with hmem | rfl
  · exact .inl hmem
  · -- the replica that has just been reloaded arrives, the others are as before
    refine .inr fun hok q hq => ?_
    rcases h.calls c (List.mem_of_getElem? hc) hok q hq with hmem | ha
    · by_cases hqp : q = p.1
      · subst hqp; exact .inr harrived
      · exact .inl (Finset.mem_erase.2 ⟨hqp, hmem⟩)
    · exact .inr (ha.effect he)

theorem Inv.answer {i : ℕ} {enabled : Bool} (h : Inv Z s) (he : Effect Z s s')
    (hst : s.answer Z i enabled = some s') : Inv Z s' := by
  obtain ⟨c, hc, hst⟩ := Option.bind_eq_some_iff.1 hst
  split at hst <;> cases hst
  rename_i htodo
  refine ⟨h.grounded.effect he, fun c' hc' => (h.calls c' (List.mem_of_mem_eraseIdx hc')).effect he,
    fun hp x hx q hq => ?_, fun hp q hq => (h.normal hp q hq).effect he⟩
  have hcase : s.yes x = true ∨ c.reloadSuccessful = true ∧ x = Z.home c.leader := by
    simp only at hx
    split_ifs at hx with hok
    · by_cases hxl : x = Z.home c.leader
      · exact .inr ⟨(Bool.and_eq_true_iff.1 hok).1, hxl⟩
      · rw [Function.update_of_ne hxl] at hx; exact .inl hx
    · exact .inl hx
  rcases hcase with hx | ⟨hok, rfl⟩
  · exact (h.yes hp x hx q hq).effect he
  · -- the call has no replica left to reload
    rcases h.calls c (List.mem_of_getElem? hc) hok q hq with hmem | ha
    · rw [htodo] at hmem
      exact absurd hmem (Finset.notMem_empty q)
    · exact ha.effect he

omit [DecidableEq R] in
theorem Inv.advance (h : Inv Z s) (he : Effect Z s s') (hst : s.advance Z = some s') :
    Inv Z s' := by
  have hcalls : ∀ c ∈ s.calls, CallOk Z s' c := fun c hc => (h.calls c hc).effect he
  have hgrounded := h.grounded.effect he
  unfold Rings.advance at hst
  split at hst
  · split_ifs at hst; cases hst
    exact ⟨hgrounded, hcalls, fun hp => (by cases hp), fun hp => (by cases hp)⟩
  · cases hst
    exact ⟨hgrounded, hcalls, fun hp => (by cases hp), fun hp => (by cases hp)⟩
  · split_ifs at hst; cases hst
    exact ⟨hgrounded, hcalls, fun _ x hx => (by cases hx), fun hp => (by cases hp)⟩
  · rename_i hphase
    split_ifs at hst with hall; cases hst
    exact ⟨hgrounded, hcalls, fun hp => (by cases hp),
      fun _ q hq => (h.yes hphase _ (hall _ hq) q rfl).effect he⟩
  · cases hst

theorem Inv.next {l : Label R} (h : Inv Z s) (hg : s.Fresh Z l) (hst : s.next Z l = some s') :
    Inv Z s' := by
  have he := effect_of_next hst
  cases l with
  | mount r v =>
    simp only [Rings.next] at hst
    split_ifs at hst; cases hst
    exact h.frame he rfl (fun _ hc => .inl hc) fun _ _ hx => hx
  | restart r =>
    cases hst
    exact h.frame he rfl (fun c hc => .inl (List.mem_of_mem_filter hc)) fun _ _ hx => hx
  | pause r =>
    simp only [Rings.next] at hst
    split_ifs at hst with hp <;> cases hst
    · exact h
    · refine h.frame he rfl (fun _ hc => .inl hc) fun hr => absurd hr ?_
      rw [not_not.1 hp]; decide
  | redistribute r =>
    simp only [Rings.next] at hst
    split_ifs at hst; cases hst; exact h
  | reload r =>
    simp only [Rings.next] at hst
    split at hst <;> cases hst
    · exact h
    · exact h.frame he rfl (fun _ hc => .inl hc) fun _ _ hx => hx
  | assign j =>
    obtain ⟨p, -, rfl⟩ := Option.map_eq_some_iff.1 hst
    exact h.frame he rfl (fun _ hc => .inl hc) fun _ _ hx => hx
  | resume r =>
    simp only [Rings.next] at hst
    split_ifs at hst <;> cases hst
    · exact h
    · refine h.frame he rfl (fun c hc => ?_) fun _ _ hx => hx
      rcases List.mem_append.1 hc with hmem | hmem
      · exact .inl hmem
      · -- the new call still has all replicas of its shard to reload
        rw [List.mem_singleton.1 hmem]
        exact .inr fun _ q hq => .inl (hg q hq)
  | reloadNext i q => exact h.reloadNext hst
  | reloaded i => exact h.reloaded hg hst
  | giveUp i =>
    obtain ⟨c, -, rfl⟩ := Option.map_eq_some_iff.1 hst
    exact h.frame he rfl (fun c hc => .inl (List.mem_of_mem_eraseIdx hc)) fun _ _ hx => hx
  | answer i enabled => exact h.answer he hst
  | reconcile =>
    cases hst
    exact h.frame he rfl (fun _ hc => .inl hc) fun _ _ hx => (by cases hx)
  | updateConfigMap =>
    simp only [Rings.next] at hst
    split_ifs at hst; cases hst
    exact h.frame he rfl (fun _ hc => .inl hc) fun _ _ hx => hx
  | advance => exact h.advance he hst

/-- **All rings agree after a scale operation whose reloads are fresh.**  For every propagation of
the configuration, every interleaving of the calls and every sequence of leaders: if each resume
call is served by a replica that knows all replicas of its shard, and whenever one of its reloads is
done no reload that is under way on that replica has read the version from before the scale
operation, then in `Normal` every replica of every remaining shard routes with the ring over exactly
the `TargetShards` shards. -/
theorem agree_of_fresh (Z : Resize R) (s : Rings R)
    (h : (machine Z).ReachedBy (Fresh Z) (start Z) s) (hp : s.phase = .normal) : s.Agree Z := by
  have hstart : Inv Z (start Z) := by
    refine ⟨fun p hp => ?_, fun c hc => ?_, fun hp => ?_, fun hp => ?_⟩
    · cases hp
    · cases hc
    · cases hp
    · cases hp
  have hinv := h.invariant (I := Inv Z) hstart fun _ _ _ hi hg hst => hi.next hg hst
  exact fun r hr => (hinv.normal hp r hr).ch

/-- One shard with two replicas grows to two shards. -/
def grow : Resize (Fin 3) where
  name := "kv"
  replicas := 2
  currentShards := 1
  targetShards := 2
  current_pos := by decide
  target_pos := by decide
  current_ne := by decide
  home := ![0, 0, 1]
  replicaClients := ![{0, 1}, {0, 1}, {2}]

/-- All mounts arrive in time, the one of the follower without the version in between; a reload that
has read the first version is done before the follower is reloaded by the resume call. -/
theorem agree_of_fresh_grow :
    ∃ s, (machine grow).ReachedBy (Fresh grow) (start grow) s ∧ s.phase = .normal ∧
      s.Agree grow := by
  have hfresh : ∀ {s : Rings (Fin 3)} {i : ℕ} {c : ResumeCall (Fin 3)} {p : Fin 3 × Version},
      s.calls[i]? = some c → c.waiting = some p → (p.1, .before) ∉ s.flights →
      s.Fresh grow (.reloaded i) := by
    intro s i c p hc hp h c' hc' p' hp'
    obtain rfl := Option.some.inj (hc.symm.trans hc')
    obtain rfl := Option.some.inj (hp.symm.trans hp')
    exact h
  obtain ⟨s, hs, hp⟩ : ∃ s, (machine grow).ReachedBy (Fresh grow) (start grow) s ∧
      s.phase = .normal :=
    ⟨_, .head (l := .mount 0 .during) trivial rfl <|
      .head (l := .mount 2 .during) trivial rfl <|
      .head (l := .pause 0) trivial rfl <|
      .head (l := .pause 2) trivial rfl <|
      .head (l := .advance) trivial rfl <|
      .head (l := .redistribute 0) trivial rfl <|
      .head (l := .advance) trivial rfl <|
      .head (l := .updateConfigMap) trivial rfl <|
      .head (l := .advance) trivial rfl <|
      .head (l := .reload 1) trivial rfl <|
      .head (l := .mount 0 .after) trivial rfl <|
      .head (l := .mount 1 .after) trivial rfl <|
      .head (l := .mount 2 .after) trivial rfl <|
      .head (l := .resume 0) (by unfold Fresh; decide) rfl <|
      .head (l := .reloadNext 0 0) trivial rfl <|
      .head (l := .reloaded 0) (hfresh rfl rfl (by decide)) rfl <|
      .head (l := .reloadNext 0 1) trivial rfl <|
      .head (l := .assign 0) trivial rfl <|
      .head (l := .reloaded 0) (hfresh rfl rfl (by decide)) rfl <|
      .head (l := .answer 0 true) trivial rfl <|
      .head (l := .resume 2) (by unfold Fresh; decide) rfl <|
      .head (l := .reloadNext 0 2) trivial rfl <|
      .head (l := .reloaded 0) (hfresh rfl rfl (by decide)) rfl <|
      .head (l := .answer 0 true) trivial rfl <|
      .head (l := .advance) trivial rfl .start, rfl⟩
  exact ⟨s, hs, hp, agree_of_fresh grow s hs hp⟩

/-- **A follower whose mount is late keeps the old ring.**  Its version from before the scale
operation has no `newShards`, so its reload counts as successful. -/
theorem not_agree :
    ¬ ∀ s, (machine grow).Reached (start grow) s → s.phase = .normal → s.Agree grow := by
  intro h
  have hs := h _ (Machine.Reached.of_run [.mount 0 .during, .mount 2 .during, .pause 0,
    .pause 2, .advance, .redistribute 0, .advance, .updateConfigMap, .advance, .mount 0 .after,
    .mount 2 .after, .resume 0, .reloadNext 0 0, .reloaded 0, .reloadNext 0 1, .reloaded 0,
    .answer 0 true, .resume 2, .reloadNext 0 2, .reloaded 0, .answer 0 true, .advance] rfl) rfl 1
    (by decide)
  exact absurd hs (by decide)

end Rings

end ShardedKvs
