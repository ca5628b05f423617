import Mathlib.Algebra.Order.BigOperators.Group.Finset
import ShardedKvs.Config.Basic
import ShardedKvs.Scale.Migration

/-!
# Client writes during a scale operation

The controller takes the shards from `StoppingWrites` through `RedistributingKeys`,
`FinalizingScale` and `ResumingWrites` back to `Normal`, while clients go on sending requests
through any replica of any shard.  A request is routed by the ring of the replica it enters
through, and committed later.

* `Plan`, `Scaling` : the scale operation and its state; `Scaling.acked` records the last
  acknowledged operation on every key.
* `Scaling.machine` : every interleaving of clients, goroutines, polls and the controller.
* `Scaling.Safe` : the request does not touch a key that is on its way.
* `Scaling.acked_of_safe` : **no acknowledged write is lost in a run whose steps are all safe**.
* `Scaling.not_acked` : a `Put` that the leader commits between the `Get` and the `Delete` of the
  same key's move is lost.

What stops the requests that are not safe is only the write flag, and `replicaRpcServer.Put` is the
only handler that reads it.
-/

namespace ShardedKvs

/-- The controller has seen all keys moved. -/
def Phase.settled : Phase → Bool
  | .finalizingScale | .resumingWrites | .normal => true
  | _ => false

/-- A scale operation: the rings, and the shards that it removes. -/
structure Plan (Shard Replica : Type*) extends Scale Shard Replica where
  removed : Shard → Bool
  removed_new : ∀ k, removed (new k) = false

/-- Two shards with one replica each; every key moves from shard `false` to shard `true`. -/
def Plan.moveAll : Plan Bool Bool where
  old _ := false
  new _ := true
  home := id
  removed _ := false
  removed_new _ := rfl

/-- When answers that are not negative add up to 0, every shard has answered 0. -/
theorem round_eq_zero_of_sum {Shard : Type*} [Fintype Shard] {round : Shard → Option ℤ}
    (hnonneg : ∀ x n, round x = some n → 0 ≤ n) (hall : ∀ x, round x ≠ none)
    (hsum : ∑ x, (round x).getD 0 = 0) (x : Shard) : round x = some 0 := by
  have hle : ∀ y ∈ Finset.univ, 0 ≤ (round y).getD 0 := by
    intro y _
    cases hy : round y with
    | none => exact le_rfl
    | some n => exact hnonneg y n hy
  have hx := (Finset.sum_eq_zero_iff_of_nonneg hle).1 hsum x (Finset.mem_univ x)
  cases hr : round x with
  | none => exact absurd hr (hall x)
  | some n => rw [hr] at hx; exact congrArg some hx

/-- The state of a scale operation with clients. -/
structure Scaling (Shard Replica : Type*) extends Migration Shard Replica where
  phase : Phase
  /-- The shards that have answered `IsPaused` or `IsResumed` in this `Reconcile`. -/
  yes : Shard → Bool
  /-- The replicas that have reloaded their config since the ConfigMap was finalized. -/
  reloaded : Replica → Bool
  /-- The requests that are under way to a shard. -/
  tasks : List (Request × Shard)
  /-- The outcome of the last acknowledged client operation on each key. -/
  acked : String → Option String

namespace Scaling

variable {Shard Replica : Type*}

/-- The steps of a scale operation. -/
inductive Label (Shard Replica : Type*) where
  /-- `kvServer.Put` on the replica `e`. -/
  | put (e : Replica) (key value : String)
  /-- `kvServer.Delete` on the replica `e`. -/
  | delete (e : Replica) (key : String)
  /-- The `i`-th request reaches its shard, at the leader (`direct`) or at a follower. -/
  | serve (i : ℕ) (direct : Bool) (out : Outcome)
  | loop (l : LoopLabel Replica)
  | poll (r : Replica) (answered : Bool)
  /-- `PauseWrites` of a shard answers `IsPaused: true`. -/
  | pause (s : Shard)
  /-- `ResumeWrites` of a shard answers `IsResumed: true`. -/
  | resume (s : Shard)
  /-- `ReloadConfig` on `r`, or a restart of its process, when the mounted config is the final one
  (`fresh`) or still the one from before the scale operation. -/
  | reload (r : Replica) (fresh : Bool)
  /-- A new `Reconcile` starts. -/
  | reconcile
  /-- `FinalizeScale` deletes the StatefulSet of a shard. -/
  | remove (s : Shard)
  /-- The controller persists the next phase. -/
  | advance

/-- `replicaRpcServer.Put` rejects the request.  Its flag is the one of `KVStore`, which keeps the
value it was opened with (`Group.FlagUnset`). -/
def rejects : Request → Bool
  | .put _ _ isRedistribution => !isRedistribution && !Node.opened.getWritesEnabled
  | .delete _ => false

section Steps

variable [Fintype Shard] [Fintype Replica] [DecidableEq Shard] [DecidableEq Replica]

/-- The next phase, if the answers of this `Reconcile` allow it. -/
def advance (S : Plan Shard Replica) (s : Scaling Shard Replica) : Option (Scaling Shard Replica) :=
  let s' := { s with round := fun _ => none, yes := fun _ => false }
  match s.phase with
  | .stoppingWrites =>
    if ∀ x, s.yes x = true then some { s' with phase := .redistributingKeys } else none
  | .redistributingKeys =>
    if (∀ x, s.round x ≠ none) ∧ ∑ x, (s.round x).getD 0 = 0 then
      some { s' with phase := .finalizingScale }
    else none
  | .finalizingScale =>
    -- no shard is asked here: a write that came after its count goes with the StatefulSet
    some { s' with
      phase := .resumingWrites
      fleet := { s.fleet with store := fun x => if S.removed x then ∅ else s.fleet.store x } }
  | .resumingWrites =>
    if ∀ x, S.removed x = false → s.yes x = true then some { s' with phase := .normal } else none
  | _ => none

/-- Request `i` reaches its shard. -/
def serve (s : Scaling Shard Replica) (i : ℕ) (direct : Bool) (out : Outcome) :
    Option (Scaling Shard Replica) :=
  match s.tasks[i]? with
  | none => none
  | some (req, x) =>
    -- only a request that a follower forwards meets a check of the flag
    if !direct && rejects req then some { s with tasks := s.tasks.eraseIdx i }
    else
      some { s with
        tasks := s.tasks.eraseIdx i
        fleet := s.fleet.commit out x req.entry
        acked := if out = .ok then Function.update s.acked req.key req.result else s.acked }

/-- One step of a scale operation. -/
def next (S : Plan Shard Replica) (s : Scaling Shard Replica) :
    Label Shard Replica → Option (Scaling Shard Replica)
  | .put e k v => some { s with tasks := s.tasks ++ [(.put k v false, s.fleet.ch e k)] }
  | .delete e k => some { s with tasks := s.tasks ++ [(.delete k, s.fleet.ch e k)] }
  | .serve i direct out => s.serve i direct out
  | .loop l =>
    (s.toMigration.next S.toScale (.loop l)).map fun m => { s with toMigration := m }
  | .poll r answered =>
    if s.phase = .redistributingKeys then
      (s.toMigration.next S.toScale (.poll r answered)).map fun m => { s with toMigration := m }
    else none
  | .pause x =>
    if s.phase = .stoppingWrites then some { s with yes := Function.update s.yes x true } else none
  | .resume x =>
    if s.phase = .resumingWrites ∧ ∀ r, S.home r = x → s.reloaded r = true then
      some { s with yes := Function.update s.yes x true }
    else none
  | .reload r fresh =>
    -- `FinalizeScale` writes the final config before the next phase is persisted
    if s.phase.settled then
      some { s with
        fleet := { s.fleet with
          ch := Function.update s.fleet.ch r (if fresh then S.new else S.old) }
        reloaded := Function.update s.reloaded r true }
    else none
  | .reconcile => some { s with round := fun _ => none, yes := fun _ => false }
  | .remove x =>
    if s.phase = .finalizingScale ∧ S.removed x = true then
      some { s with fleet := { s.fleet with store := Function.update s.fleet.store x ∅ } }
    else none
  | .advance => s.advance S

/-- Every interleaving of clients, goroutines, polls and the controller. -/
def machine (S : Plan Shard Replica) : Machine (Scaling Shard Replica) (Label Shard Replica) :=
  ⟨next S⟩

end Steps

variable [DecidableEq Shard] [DecidableEq Replica]

/-- The state when the controller enters `StoppingWrites`. -/
def start {S : Plan Shard Replica} (P : Placement S.toScale) : Scaling Shard Replica where
  toMigration := Migration.start P
  phase := .stoppingWrites
  yes _ := false
  reloaded _ := false
  tasks := []
  acked := P.content

/-- The owner of every key under the new ring holds what the last acknowledged client operation
left. -/
def AckedKept (S : Plan Shard Replica) (s : Scaling Shard Replica) : Prop :=
  ∀ k, s.fleet.get (S.new k) k = s.acked k

/-- A write may be committed at the shard `x`: no goroutine is moving the key, and a shard that the
key leaves takes a `Put` only while it still has to be counted, a `Delete` only while the new owner
has no copy. -/
def WriteSafe (S : Plan Shard Replica) (s : Scaling Shard Replica) (req : Request) (x : Shard) :
    Prop :=
  (∀ r, (s.fleet.loop r).key ≠ some req.key) ∧
    (x ≠ S.new req.key →
      match req with
      | .put k _ _ => s.phase = .stoppingWrites ∨
          s.phase = .redistributingKeys ∧ s.round (S.old k) ≠ some 0
      | .delete k => s.fleet.get (S.new k) k = none)

/-- The step loses no write: a request that is committed on a key that moves is committed at a safe
moment and is acknowledged, and no poll counts `2 ^ 31` keys or more. -/
def Safe (S : Plan Shard Replica) (s : Scaling Shard Replica) : Label Shard Replica → Prop
  | .serve i direct out =>
    match s.tasks[i]? with
    | none => True
    | some (req, x) => out.applied = true → (!direct && rejects req) = false →
        out ≠ .lost ∧ (S.old req.key ≠ S.new req.key → s.WriteSafe S req x)
  | .poll r _ => s.fleet.pendingKeys S.toScale r < 2 ^ 31
  | _ => True

/-! ### The stores and the acknowledged operations -/

section Agree

variable {S : Scale Shard Replica} {f f' : Fleet Shard Replica} {acked : String → Option String}

/-- The old owner of a key has its acknowledged value, or else the new owner agrees on it.  A
goroutine that moves a key has read the acknowledged value, and has left it at the new owner once
the `Put` is through. -/
structure Agree (S : Scale Shard Replica) (f : Fleet Shard Replica)
    (acked : String → Option String) : Prop where
  old : ∀ k v, f.get (S.old k) k = some v → acked k = some v
  new : ∀ k, f.get (S.old k) k = none → f.get (S.new k) k = acked k
  got : ∀ r k v, f.loop r = .got k v →
    S.old k = S.home r ∧ S.new k ≠ S.home r ∧ acked k = some v
  sent : ∀ r k, f.loop r = .sent k →
    S.old k = S.home r ∧ S.new k ≠ S.home r ∧ f.get (S.new k) k = acked k

omit [DecidableEq Shard] in
theorem Agree.goto (h : Agree S f acked) {r : Replica} {l : Loop}
    (hgot : ∀ k v, l = .got k v → S.old k = S.home r ∧ S.new k ≠ S.home r ∧ acked k = some v)
    (hsent : ∀ k, l = .sent k →
      S.old k = S.home r ∧ S.new k ≠ S.home r ∧ f.get (S.new k) k = acked k) :
    Agree S (f.goto r l) acked := by
  refine ⟨h.old, h.new, fun r' k v hl => ?_, fun r' k hl => ?_⟩
  all_goals
    rw [Fleet.loop_goto] at hl
    split_ifs at hl with hr
  · subst hr; exact hgot k v hl
  · exact h.got r' k v hl
  · subst hr; exact hsent k hl
  · exact h.sent r' k hl

omit [DecidableEq Replica] in
/-- The `Put` of a goroutine leaves the acknowledged value at the new owner. -/
theorem Agree.write_set (h : Agree S f acked) {r : Replica} {k v : String}
    (hloop : f.loop r = .got k v) : Agree S (f.write (S.new k) (.set k v)) acked := by
  obtain ⟨hold, hnew, hacked⟩ := h.got r k v hloop
  have hne : S.old k ≠ S.new k := fun he => hnew (he.symm.trans hold)
  -- the copies at the old owners are not touched
  have hkeep : ∀ k', (f.write (S.new k) (.set k v)).get (S.old k') k' = f.get (S.old k') k' := by
    intro k'
    rw [Fleet.get_write_set, if_neg]
    rintro ⟨hs, rfl⟩
    exact hne hs
  -- and the new owner of a key either keeps what it has or gets the acknowledged value
  have hput : ∀ k', f.get (S.new k') k' = acked k' →
      (f.write (S.new k) (.set k v)).get (S.new k') k' = acked k' := by
    intro k' hk'
    rw [Fleet.get_write_set]
    split_ifs with hc
    · obtain ⟨-, rfl⟩ := hc; exact hacked.symm
    · exact hk'
  refine ⟨fun k' v' hv => ?_, fun k' hv => ?_, h.got, fun r' k' hl => ?_⟩
  · rw [hkeep] at hv; exact h.old k' v' hv
  · rw [hkeep] at hv; exact hput k' (h.new k' hv)
  · obtain ⟨h₁, h₂, h₃⟩ := h.sent r' k' hl
    exact ⟨h₁, h₂, hput k' h₃⟩

omit [DecidableEq Replica] in
/-- The `Delete` of a goroutine leaves the key to the new owner. -/
theorem Agree.write_delete (h : Agree S f acked) {r : Replica} {k : String}
    (hloop : f.loop r = .sent k) : Agree S (f.write (S.home r) (.delete k)) acked := by
  obtain ⟨-, hnew, hget⟩ := h.sent r k hloop
  have hkeep : ∀ k', (f.write (S.home r) (.delete k)).get (S.new k') k' = f.get (S.new k') k' := by
    intro k'
    rw [Fleet.get_write_delete, if_neg]
    rintro ⟨hs, rfl⟩
    exact hnew hs
  refine ⟨fun k' v hv => ?_, fun k' hv => ?_, h.got, fun r' k' hl => ?_⟩
  · rw [Fleet.get_write_delete] at hv
    split_ifs at hv
    exact h.old k' v hv
  · rw [hkeep]
    by_cases hk : k' = k
    · subst hk; exact hget
    · rw [Fleet.get_write_delete, if_neg fun hc => hk hc.2] at hv
      exact h.new k' hv
  · rw [hkeep]; exact h.sent r' k' hl

theorem Agree.moves (h : Agree S f acked)
    (hring : ∀ r k, f.mustMove S r k = true → S.old k = S.home r ∧ S.new k ≠ S.home r)
    (hm : f.Moves S f') : Agree S f' acked := by
  cases hm with
  | pass => exact h
  | rest hl =>
    refine h.goto (fun k v hl' => ?_) fun k hl' => ?_ <;>
      (subst hl'; rcases hl with hl | hl <;> cases hl)
  | @read r k v hmust hget =>
    obtain ⟨hold, hnew⟩ := hring r k hmust
    refine h.goto (fun k' v' hl => ?_) fun k' hl => by cases hl
    cases hl
    exact ⟨hold, hnew, h.old k v (by rw [hold]; exact hget)⟩
  | @send r k v l hloop hl =>
    obtain ⟨hold, hnew, hacked⟩ := h.got r k v hloop
    refine (h.write_set hloop).goto (fun k' v' hl' => ?_) fun k' hl' => ?_
    · subst hl'; rcases hl with hl | hl <;> cases hl
    · subst hl'
      rcases hl with hl | hl <;> cases hl
      refine ⟨hold, hnew, ?_⟩
      rw [Fleet.get_write_set, if_pos ⟨rfl, rfl⟩, hacked]
  | @purge r k hloop =>
    exact (h.write_delete hloop).goto (fun k v hl => by cases hl) fun k hl => by cases hl

omit [DecidableEq Shard] [DecidableEq Replica] in
/-- A goroutine only moves keys that leave its shard. -/
theorem Agree.moving (h : Agree S f acked) {r : Replica} {k : String}
    (hk : (f.loop r).key = some k) : S.old k = S.home r ∧ S.new k ≠ S.home r := by
  cases hl : f.loop r with
  | off | idle => rw [hl] at hk; cases hk
  | got k' v =>
    rw [hl] at hk; cases hk
    exact ⟨(h.got r k v hl).1, (h.got r k v hl).2.1⟩
  | sent k' =>
    rw [hl] at hk; cases hk
    exact ⟨(h.sent r k hl).1, (h.sent r k hl).2.1⟩

omit [DecidableEq Replica] in
/-- A client write of a key that no goroutine is moving: it is enough that the two owners of that
key come out right. -/
theorem Agree.write_entry (h : Agree S f acked) {x : Shard} {req : Request}
    (hfree : ∀ r, (f.loop r).key ≠ some req.key)
    (hold : ∀ v, (f.write x req.entry).get (S.old req.key) req.key = some v → req.result = some v)
    (hnew : (f.write x req.entry).get (S.old req.key) req.key = none →
      (f.write x req.entry).get (S.new req.key) req.key = req.result) :
    Agree S (f.write x req.entry) (Function.update acked req.key req.result) := by
  -- the other keys are not touched
  have hother : ∀ s k, k ≠ req.key → (f.write x req.entry).get s k = f.get s k := by
    intro s k hk
    rw [Fleet.get_write_entry, if_neg fun hc => hk hc.2]
  refine ⟨fun k v hv => ?_, fun k hv => ?_, fun r k v hl => ?_, fun r k hl => ?_⟩
  · by_cases hk : k = req.key
    · subst hk; rw [Function.update_self]; exact hold v hv
    · rw [hother _ _ hk] at hv
      rw [Function.update_of_ne hk]; exact h.old k v hv
  · by_cases hk : k = req.key
    · subst hk; rw [Function.update_self]; exact hnew hv
    · rw [hother _ _ hk] at hv ⊢
      rw [Function.update_of_ne hk]; exact h.new k hv
  · have hk : k ≠ req.key := by
      rintro rfl
      exact hfree r (by change f.loop r = _ at hl; rw [hl]; rfl)
    rw [Function.update_of_ne hk]
    exact h.got r k v hl
  · have hk : k ≠ req.key := by
      rintro rfl
      exact hfree r (by change f.loop r = _ at hl; rw [hl]; rfl)
    rw [Function.update_of_ne hk, hother _ _ hk]
    exact h.sent r k hl

open Migration (Cleared)

omit [DecidableEq Replica] in
/-- A client write keeps a shard cleared, unless it puts a key that has to leave the shard. -/
theorem cleared_write_entry {x y : Shard} {req : Request} (h : Cleared S f y)
    (hput : x = y → S.old req.key = y → S.new req.key ≠ y → req.result = none) :
    Cleared S (f.write x req.entry) y := by
  intro k hold hnew
  rw [Fleet.get_write_entry]
  split_ifs with hc
  · obtain ⟨rfl, rfl⟩ := hc; exact hput rfl hold hnew
  · exact h k hold hnew

omit [DecidableEq Shard] [DecidableEq Replica] in
/-- Deleting shards that own no key under the new ring, once all keys have moved. -/
theorem Agree.erase (h : Agree S f acked) (hc : ∀ x, Cleared S f x) (hloop : f'.loop = f.loop)
    (hnew : ∀ k, f'.get (S.new k) k = f.get (S.new k) k)
    (hget : ∀ x k, f'.get x k = f.get x k ∨ f'.get x k = none) : Agree S f' acked := by
  refine ⟨fun k v hv => ?_, fun k hv => ?_, fun r k v hl => ?_, fun r k hl => ?_⟩
  · rcases hget (S.old k) k with heq | hnone
    · exact h.old k v (heq ▸ hv)
    · rw [hnone] at hv; cases hv
  · rw [hnew]
    by_cases hk : S.new k = S.old k
    · rw [← hk, hnew] at hv
      exact h.new k (hk ▸ hv)
    · exact h.new k (hc (S.old k) k rfl hk)
  · exact h.got r k v (hloop ▸ hl)
  · rw [hnew]; exact h.sent r k (hloop ▸ hl)

end Agree

/-! ### The invariant of a scale operation -/

variable {S : Plan Shard Replica} {s s' : Scaling Shard Replica}

/-- The invariant of a scale operation with safe steps. -/
structure Inv (S : Plan Shard Replica) (s : Scaling Shard Replica) : Prop where
  ring : ∀ r k, s.fleet.ch r k = S.old k ∨ s.fleet.ch r k = S.new k ∧ s.phase.settled = true
  routed : ∀ t ∈ s.tasks, t.2 = S.old t.1.key ∨ t.2 = S.new t.1.key ∧ s.phase.settled = true
  agree : Agree S.toScale s.fleet s.acked
  nonneg : ∀ x n, s.round x = some n → 0 ≤ n
  counted : s.phase = .redistributingKeys → ∀ x, s.round x = some 0 →
    Migration.Cleared S.toScale s.fleet x
  cleared : s.phase.settled = true → ∀ x, Migration.Cleared S.toScale s.fleet x

omit [DecidableEq Replica] in
/-- Whatever ring a replica routes with, it only moves keys from their old owner. -/
theorem Inv.mustMove (h : Inv S s) (r : Replica) (k : String)
    (hm : s.fleet.mustMove S.toScale r k = true) : S.old k = S.home r ∧ S.new k ≠ S.home r := by
  obtain ⟨hne, heq⟩ := (Fleet.mustMove_iff r k).1 hm
  rcases h.ring r k with hr | ⟨hr, -⟩
  · exact ⟨hr.symm.trans heq, fun hn => hne (heq.trans hn.symm)⟩
  · exact absurd hr hne

theorem Inv.migrate (h : Inv S s) {m : Migration Shard Replica}
    (hm : s.fleet.Moves S.toScale m.fleet) (hnonneg : ∀ x n, m.round x = some n → 0 ≤ n)
    (hcounted : s.phase = .redistributingKeys → ∀ x, m.round x = some 0 →
      Migration.Cleared S.toScale m.fleet x) : Inv S { s with toMigration := m } := by
  refine ⟨fun r k => ?_, h.routed, h.agree.moves h.mustMove hm, hnonneg, hcounted,
    fun hp x => (h.cleared hp x).moves hm⟩
  change m.fleet.ch r k = _ ∨ m.fleet.ch r k = _ ∧ _
  rw [hm.ch_eq]
  exact h.ring r k

theorem Inv.loop (h : Inv S s) {l : LoopLabel Replica} {m : Migration Shard Replica}
    (hst : s.toMigration.next S.toScale (.loop l) = some m) :
    Inv S { s with toMigration := m } := by
  have hmoves := Migration.moves_of_next hst
  obtain ⟨f, -, rfl⟩ := Option.map_eq_some_iff.1 hst
  exact h.migrate hmoves h.nonneg fun hp x hx => (h.counted hp x hx).moves hmoves

/-- A poll that does not wrap around reports the count. -/
theorem Inv.poll (h : Inv S s) {r : Replica} {answered : Bool} {m : Migration Shard Replica}
    (hp : s.phase = .redistributingKeys) (hfits : s.fleet.pendingKeys S.toScale r < 2 ^ 31)
    (hst : s.toMigration.next S.toScale (.poll r answered) = some m) :
    Inv S { s with toMigration := m } := by
  have hmoves := Migration.moves_of_next hst
  have hanswer : s.fleet.answer S.toScale r = s.fleet.pendingKeys S.toScale r :=
    Int32.toInt_ofNat_of_lt hfits
  simp only [Migration.next] at hst
  split_ifs at hst <;> cases hst
  · refine h.migrate hmoves (fun x n hx => ?_) fun _ x hx => ?_
    · by_cases hxr : x = S.home r
      · subst hxr
        simp only [Function.update_self, Option.some.injEq] at hx
        omega
      · simp only [Function.update_of_ne hxr] at hx
        exact h.nonneg x n hx
    · by_cases hxr : x = S.home r
      · subst hxr
        simp only [Function.update_self, Option.some.injEq] at hx
        have hzero : s.fleet.pendingKeys S.toScale r = 0 := by omega
        refine Migration.Cleared.moves (fun k hold hnew => ?_) hmoves
        refine (Fleet.pendingKeys_eq_zero_iff r).1 hzero k ((Fleet.mustMove_iff r k).2 ?_)
        rcases h.ring r k with hr | ⟨-, hr⟩
        · rw [hr]; exact ⟨fun he => hnew (he.symm.trans hold), hold⟩
        · rw [hp] at hr; cases hr
      · simp only [Function.update_of_ne hxr] at hx
        exact (h.counted hp x hx).moves hmoves
  · exact h.migrate hmoves (fun x n hx => by cases hx) fun _ x hx => by cases hx

omit [DecidableEq Replica] in
theorem Inv.write (h : Inv S s) {req : Request} {x : Shard} (ht : (req, x) ∈ s.tasks)
    (hsafe : S.old req.key ≠ S.new req.key → s.WriteSafe S req x) :
    Agree S.toScale (s.fleet.write x req.entry) (Function.update s.acked req.key req.result) := by
  have hhere : ∀ y, (s.fleet.write x req.entry).get y req.key =
      if y = x then req.result else s.fleet.get y req.key := by
    intro y; rw [Fleet.get_write_entry]; simp
  by_cases hmove : S.old req.key = S.new req.key
  · -- the key does not move, so both rings send the request to its owner
    have hx : x = S.old req.key := by
      rcases h.routed _ ht with hx | ⟨hx, -⟩
      · exact hx
      · exact hx.trans hmove.symm
    refine h.agree.write_entry (fun r hr => ?_) (fun v hv => ?_) fun _ => ?_
    · obtain ⟨hold, hnew⟩ := h.agree.moving hr
      exact hnew (hmove.symm.trans hold)
    · rw [hhere, if_pos hx.symm] at hv; exact hv
    · rw [hhere, if_pos (hmove.symm.trans hx.symm)]
  · obtain ⟨hfree, hplace⟩ := hsafe hmove
    by_cases hxnew : x = S.new req.key
    · -- a replica that has reloaded its ring: the old owner has been cleared
      have hsettled : s.phase.settled = true := by
        rcases h.routed _ ht with hx | ⟨-, hp⟩
        · exact absurd (hx.symm.trans hxnew) hmove
        · exact hp
      have hgone := h.cleared hsettled (S.old req.key) req.key rfl (Ne.symm hmove)
      have hne : S.old req.key ≠ x := fun he => hmove (he.trans hxnew)
      refine h.agree.write_entry hfree (fun v hv => ?_) fun _ => ?_
      · rw [hhere, if_neg hne, hgone] at hv; cases hv
      · rw [hhere, if_pos hxnew.symm]
    · -- the old owner: a later move takes a `Put` along, a `Delete` has no copy to chase
      have hx : x = S.old req.key := by
        rcases h.routed _ ht with hx | ⟨hx, -⟩
        · exact hx
        · exact absurd hx hxnew
      refine h.agree.write_entry hfree (fun v hv => ?_) fun hv => ?_
      · rw [hhere, if_pos hx.symm] at hv; exact hv
      · rw [hhere, if_pos hx.symm] at hv
        have hdelete := hplace hxnew
        rw [hhere, if_neg (Ne.symm hxnew)]
        cases req with
        | put k v isRedistribution => cases hv
        | delete k => exact hdelete

omit [DecidableEq Replica] in
/-- A client write at a safe moment puts no key at a shard that the key has left. -/
theorem Inv.write_cleared (h : Inv S s) {req : Request} {x y : Shard} (ht : (req, x) ∈ s.tasks)
    (hsafe : S.old req.key ≠ S.new req.key → s.WriteSafe S req x)
    (hy : s.phase.settled = true ∨ s.phase = .redistributingKeys ∧ s.round y = some 0) :
    Migration.Cleared S.toScale (s.fleet.write x req.entry) y := by
  have hc : Migration.Cleared S.toScale s.fleet y := by
    rcases hy with hp | ⟨hp, hr⟩
    · exact h.cleared hp y
    · exact h.counted hp y hr
  refine cleared_write_entry hc fun hxy hold hnew => ?_
  subst hxy
  have hplace := (hsafe fun he => hnew (he.symm.trans hold)).2 (Ne.symm hnew)
  cases req with
  | delete k => rfl
  | put k v isRedistribution =>
    rcases hplace with hp | ⟨hp, hr⟩ <;> rcases hy with hy | ⟨hy, hy'⟩
    · rw [hp] at hy; cases hy
    · rw [hp] at hy; cases hy
    · rw [hp] at hy; cases hy
    · change S.old k = x at hold
      rw [hold] at hr; exact absurd hy' hr

omit [DecidableEq Replica] in
theorem Inv.serve (h : Inv S s) {i : ℕ} {direct : Bool} {out : Outcome}
    (hsafe : s.Safe S (.serve i direct out)) (hst : s.serve i direct out = some s') : Inv S s' := by
  have hrouted : ∀ t ∈ s.tasks.eraseIdx i,
      t.2 = S.old t.1.key ∨ t.2 = S.new t.1.key ∧ s.phase.settled = true :=
    fun t ht => h.routed t (List.mem_of_mem_eraseIdx ht)
  unfold Scaling.serve at hst
  split at hst
  · cases hst
  · rename_i req x htask
    split at hst
    · cases hst
      exact ⟨h.ring, hrouted, h.agree, h.nonneg, h.counted, h.cleared⟩
    · rename_i hserved
      cases hst
      have hmem : (req, x) ∈ s.tasks := List.mem_of_getElem? htask
      simp only [Safe, htask] at hsafe
      cases out with
      | failed => exact ⟨h.ring, hrouted, h.agree, h.nonneg, h.counted, h.cleared⟩
      | lost => exact absurd rfl (hsafe rfl (by simpa using hserved)).1
      | ok =>
        have hw := (hsafe rfl (by simpa using hserved)).2
        exact ⟨h.ring, hrouted, h.write hmem hw, h.nonneg,
          fun hp y hr => h.write_cleared hmem hw (.inr ⟨hp, hr⟩),
          fun hp y => h.write_cleared hmem hw (.inl hp)⟩

omit [DecidableEq Shard] [DecidableEq Replica] in
theorem Inv.erase (h : Inv S s) (hp : s.phase.settled = true) (store : Shard → Contents)
    (hstore : ∀ x, store x = s.fleet.store x ∨ store x = ∅ ∧ S.removed x = true) :
    Agree S.toScale { s.fleet with store := store } s.acked ∧
      ∀ x, Migration.Cleared S.toScale { s.fleet with store := store } x := by
  have hget : ∀ x k, ({ s.fleet with store := store } : Fleet Shard Replica).get x k =
      s.fleet.get x k ∨ ({ s.fleet with store := store } : Fleet Shard Replica).get x k = none := by
    intro x k
    unfold Fleet.get
    rcases hstore x with hx | ⟨hx, -⟩
    · exact .inl (congrArg (Finmap.lookup k) hx)
    · exact .inr ((congrArg (Finmap.lookup k) hx).trans (Finmap.lookup_empty k))
  refine ⟨h.agree.erase (h.cleared hp) rfl (fun k => ?_) hget, fun x k hold hnew => ?_⟩
  · rcases hstore (S.new k) with hx | ⟨-, hx⟩
    · exact congrArg (Finmap.lookup k) hx
    · rw [S.removed_new] at hx; cases hx
  · rcases hget x k with hx | hx
    · rw [hx]; exact h.cleared hp x k hold hnew
    · exact hx

omit [DecidableEq Shard] [DecidableEq Replica] in
theorem inv_start (P : Placement S.toScale) : Inv S (start P) := by
  refine ⟨fun _ _ => .inl rfl, nofun, ⟨fun k v hv => hv, fun k hv => ?_, nofun, nofun⟩, nofun,
    nofun, nofun⟩
  -- a key that is not at its old owner is nowhere
  change (P.store (S.new k)).lookup k = (P.store (S.old k)).lookup k
  by_cases hne : (P.store (S.new k)).lookup k = none
  · exact hne.trans hv.symm
  · rw [P.placed _ k hne]

section Run

variable [Fintype Shard] [Fintype Replica]

omit [Fintype Replica] [DecidableEq Shard] [DecidableEq Replica] in
theorem Inv.advance (h : Inv S s) (hst : s.advance S = some s') : Inv S s' := by
  have hring : ∀ {p : Phase}, (s.phase.settled = true → p.settled = true) → ∀ r k,
      s.fleet.ch r k = S.old k ∨ s.fleet.ch r k = S.new k ∧ p.settled = true :=
    fun hp r k => (h.ring r k).imp_right fun hr => ⟨hr.1, hp hr.2⟩
  have hrouted : ∀ {p : Phase}, (s.phase.settled = true → p.settled = true) → ∀ t ∈ s.tasks,
      t.2 = S.old t.1.key ∨ t.2 = S.new t.1.key ∧ p.settled = true :=
    fun hp t ht => (h.routed t ht).imp_right fun hr => ⟨hr.1, hp hr.2⟩
  unfold Scaling.advance at hst
  split at hst
  · rename_i hphase
    split_ifs at hst; cases hst
    have hp : s.phase.settled = true → Phase.redistributingKeys.settled = true := by
      rw [hphase]; exact id
    exact ⟨hring hp, hrouted hp, h.agree, nofun, nofun, nofun⟩
  · rename_i hphase
    split_ifs at hst with hsum; cases hst
    exact ⟨hring fun _ => rfl, hrouted fun _ => rfl, h.agree, nofun,
      nofun, fun _ x => h.counted hphase x (round_eq_zero_of_sum h.nonneg hsum.1 hsum.2 x)⟩
  · rename_i hphase
    cases hst
    have herase := h.erase (by rw [hphase]; rfl)
      (fun x => if S.removed x then ∅ else s.fleet.store x) fun x => by
        cases hx : S.removed x <;> simp
    exact ⟨hring fun _ => rfl, hrouted fun _ => rfl, herase.1, nofun,
      nofun, fun _ => herase.2⟩
  · rename_i hphase
    split_ifs at hst; cases hst
    exact ⟨hring fun _ => rfl, hrouted fun _ => rfl, h.agree, nofun,
      nofun, fun _ => h.cleared (by rw [hphase]; rfl)⟩
  · cases hst

omit [Fintype Shard] [Fintype Replica] [DecidableEq Shard] [DecidableEq Replica] in
theorem Inv.enqueue (h : Inv S s) (e : Replica) (req : Request) :
    Inv S { s with tasks := s.tasks ++ [(req, s.fleet.ch e req.key)] } := by
  refine ⟨h.ring, fun t ht => ?_, h.agree, h.nonneg, h.counted, h.cleared⟩
  rcases List.mem_append.1 ht with hmem | hmem
  · exact h.routed t hmem
  · rw [List.mem_singleton.1 hmem]; exact h.ring e req.key

theorem Inv.next (h : Inv S s) {l : Label Shard Replica} (hsafe : s.Safe S l)
    (hst : s.next S l = some s') : Inv S s' := by
  cases l with
  | put e k v => cases hst; exact h.enqueue e (.put k v false)
  | delete e k => cases hst; exact h.enqueue e (.delete k)
  | serve i direct out => exact h.serve hsafe hst
  | loop l =>
    obtain ⟨m, hm, rfl⟩ := Option.map_eq_some_iff.1 hst
    exact h.loop hm
  | poll r answered =>
    simp only [Scaling.next] at hst
    split_ifs at hst with hp
    obtain ⟨m, hm, rfl⟩ := Option.map_eq_some_iff.1 hst
    exact h.poll hp hsafe hm
  | pause x | resume x =>
    simp only [Scaling.next] at hst
    split_ifs at hst; cases hst
    exact ⟨h.ring, h.routed, h.agree, h.nonneg, h.counted, h.cleared⟩
  | reload r fresh =>
    simp only [Scaling.next] at hst
    split at hst <;> cases hst
    rename_i hsettled
    refine ⟨fun r' k => ?_, h.routed, ⟨h.agree.old, h.agree.new, h.agree.got, h.agree.sent⟩,
      h.nonneg, h.counted, h.cleared⟩
    by_cases hr : r' = r
    · subst hr
      simp only [Function.update_self]
      cases fresh with
      | true => exact .inr ⟨rfl, hsettled⟩
      | false => exact .inl rfl
    · simp only [Function.update_of_ne hr]
      exact h.ring r' k
  | reconcile =>
    cases hst
    exact ⟨h.ring, h.routed, h.agree, nofun, nofun, h.cleared⟩
  | remove x =>
    simp only [Scaling.next] at hst
    split_ifs at hst with hp; cases hst
    have hsettled : s.phase.settled = true := by rw [hp.1]; rfl
    have herase := h.erase hsettled (Function.update s.fleet.store x ∅) fun y => by
      by_cases hy : y = x
      · subst hy; rw [Function.update_self]; exact .inr ⟨rfl, hp.2⟩
      · rw [Function.update_of_ne hy]; exact .inl rfl
    exact ⟨h.ring, h.routed, herase.1, h.nonneg, fun _ y _ => herase.2 y, fun _ => herase.2⟩
  | advance => exact h.advance hst

omit [DecidableEq Shard] [DecidableEq Replica] [Fintype Shard] [Fintype Replica] in
theorem Inv.ackedKept (h : Inv S s) (hp : s.phase = .normal) : AckedKept S s := by
  intro k
  by_cases hk : S.new k = S.old k
  · cases hget : s.fleet.get (S.old k) k with
    | none => exact h.agree.new k hget
    | some v => rw [hk, hget, h.agree.old k v hget]
  · exact h.agree.new k (h.cleared (by rw [hp]; rfl) (S.old k) k rfl hk)

/-- **No acknowledged write is lost in a safe run.**  For all rings, all initial stores and every
interleaving of client requests, goroutines, polls and the controller whose steps are all safe: when
the phase is `Normal` again, the owner of every key under the new ring holds what the last
acknowledged client operation on it left. -/
theorem acked_of_safe (P : Placement S.toScale) (s : Scaling Shard Replica)
    (h : (machine S).ReachedBy (Safe S) (start P) s) (hp : s.phase = .normal) : AckedKept S s :=
  (h.invariant (I := Inv S) (inv_start P) fun _ _ _ hi hsafe hst => hi.next hsafe hst).ackedKept hp

end Run

/-- Shard `false` is removed; it owns `"a"` before the scale operation. -/
def removal : Plan Bool Bool where
  old k := k != "a"
  new _ := true
  home := id
  removed x := !x
  removed_new _ := rfl

/-- The key `"a"` at its owner. -/
def oneKey : Placement removal.toScale where
  store x := if x then ∅ else (∅ : Contents).insert "a" "1"
  placed x k hk := by
    cases x with
    | true => exact absurd rfl hk
    | false =>
      by_cases hka : k = "a"
      · subst hka; rfl
      · exact absurd (Finmap.lookup_insert_of_ne _ hka) hk

/-- A client changes the key before the pause and again after the rings have been reloaded. -/
theorem acked_of_safe_removal :
    ∃ s, (machine removal).ReachedBy (Safe removal) (start oneKey) s ∧ s.phase = .normal ∧
      s.acked "a" = some "3" ∧ AckedKept removal s := by
  obtain ⟨s, hs, hp, ha⟩ : ∃ s, (machine removal).ReachedBy (Safe removal) (start oneKey) s ∧
      s.phase = .normal ∧ s.acked "a" = some "3" :=
    ⟨_, .head (l := .put true "a" "2") trivial rfl <|
      .head (l := .serve 0 true .ok)
        (fun _ _ => ⟨by decide, fun _ => ⟨by decide, fun _ => .inl rfl⟩⟩) rfl <|
      .head (l := .pause false) trivial rfl <|
      .head (l := .pause true) trivial rfl <|
      .head (l := .advance) trivial rfl <|
      .head (l := .poll false true) (by unfold Safe; decide) rfl <|
      .head (l := .loop (.read false "a")) trivial rfl <|
      .head (l := .loop (.send false .ok)) trivial rfl <|
      .head (l := .loop (.purge false .ok)) trivial rfl <|
      .head (l := .reconcile) trivial rfl <|
      .head (l := .poll false true) (by unfold Safe; decide) rfl <|
      .head (l := .poll true true) (by unfold Safe; decide) rfl <|
      .head (l := .advance) trivial rfl <|
      .head (l := .advance) trivial rfl <|
      .head (l := .reload true true) trivial rfl <|
      .head (l := .put true "a" "3") trivial rfl <|
      .head (l := .serve 0 true .ok)
        (fun _ _ => ⟨by decide, fun _ => ⟨by decide, fun hx => absurd rfl hx⟩⟩) rfl <|
      .head (l := .resume true) trivial rfl <|
      .head (l := .advance) trivial rfl .start, rfl, rfl⟩
  exact ⟨s, hs, hp, ha, acked_of_safe oneKey s hs hp⟩

/-- **A write between the `Get` and the `Delete` of a move is lost.**  All shards have answered
`IsPaused`; the goroutine has read `"a"` when the leader commits and acknowledges a `Put` of the
same key; the old value is sent and the new one deleted. -/
theorem not_acked :
    ¬ ∀ s, (machine removal).Reached (start oneKey) s → s.phase = .normal →
      AckedKept removal s := by
  intro h
  have hs := h _ (Machine.Reached.of_run [.pause false, .pause true, .advance,
    .poll false true, .loop (.read false "a"), .put true "a" "2", .serve 0 true .ok,
    .loop (.send false .ok), .loop (.purge false .ok), .reconcile, .poll false true,
    .poll true true, .advance, .remove false, .advance, .reload true true, .resume true,
    .advance] rfl) rfl "a"
  exact absurd hs (by decide)

end Scaling

end ShardedKvs
