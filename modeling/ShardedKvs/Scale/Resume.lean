import ShardedKvs.Scale.Writes

/-!
# Client writes while shards resume

When the keys have moved and every mounted config is the final one, the controller resumes the
shards one after another.  A replica routes with the old ring until its own `ReloadConfig`, and the
replicas of a shard reload only when `ResumeWrites` of that shard is called.  A client `Put` is
routed by the replica that it enters through, and is accepted by the shard that it is routed to.

* `Resuming.machine` : every order of the resumes, interleaved with client `Put`s.
* `Resuming.Kept` : every acknowledged `Put` is at the owner of its key under the new ring, and no
  shard stores a key that it does not own.
* `Resuming.kept_of_routed` : **no write is stranded** when every `Put` is routed to the new owner
  of its key and none takes effect without being acknowledged.
* `Resuming.not_kept` : a replica of a shard that has not resumed routes a `Put` to the old owner,
  which has.
-/

namespace ShardedKvs

/-- The scale operation is over: the new ring is the only one. -/
def Scale.after {Shard Replica : Type*} (S : Scale Shard Replica) : Scale Shard Replica :=
  ⟨S.new, S.new, S.home⟩

/-- A `PutRequest` that is under way to the shard that it was routed to. -/
structure Routed (Shard : Type*) where
  key : String
  value : String
  shard : Shard

/-- The shards while they resume. -/
structure Resuming (Shard Replica : Type*) where
  /-- The committed store of each shard. -/
  store : Shard → Contents
  /-- The ring `ch` that each process routes with. -/
  ch : Replica → String → Shard
  phase : Phase
  /-- The replicas that have reloaded their config. -/
  reloaded : Replica → Bool
  /-- The shards that have answered `IsResumed`. -/
  resumed : Shard → Bool
  tasks : List (Routed Shard)
  /-- The value of the last acknowledged `Put` of each key. -/
  acked : String → Option String

namespace Resuming

variable {Shard Replica : Type*}

/-- The steps of the clients, of the replicas and of the controller. -/
inductive Label (Shard Replica : Type*) where
  /-- `kvServer.Put` on the replica `e`. -/
  | put (e : Replica) (key value : String)
  /-- The `i`-th `Put` reaches its shard. -/
  | serve (i : ℕ) (out : Outcome)
  /-- `ReloadConfig` on `r`. -/
  | reload (r : Replica)
  /-- `ResumeWrites` of a shard answers `IsResumed: true`. -/
  | resume (x : Shard)
  /-- The controller persists `Normal`. -/
  | advance

/-- The state when the controller enters `ResumingWrites`: all keys are at their owner under the new
ring, and all processes still route with the old one. -/
def start {S : Plan Shard Replica} (P : Placement S.toScale.after) : Resuming Shard Replica where
  store := P.store
  ch _ := S.old
  phase := .resumingWrites
  reloaded _ := false
  resumed _ := false
  tasks := []
  acked _ := none

section Steps

variable [Fintype Shard] [Fintype Replica] [DecidableEq Shard] [DecidableEq Replica]

omit [Fintype Shard] in
/-- The `Put` reaches its shard, which takes writes only after its resume. -/
def deliver (s : Resuming Shard Replica) (t : Routed Shard) (out : Outcome) :
    Resuming Shard Replica :=
  if s.resumed t.shard && out.applied then
    { s with
      store := Function.update s.store t.shard ((s.store t.shard).insert t.key t.value)
      acked := if out = .ok then Function.update s.acked t.key (some t.value) else s.acked }
  else s

/-- One step. -/
def next (S : Plan Shard Replica) (s : Resuming Shard Replica) :
    Label Shard Replica → Option (Resuming Shard Replica)
  | .put e k v =>
    if S.removed (S.home e) then none
    else some { s with tasks := s.tasks ++ [⟨k, v, s.ch e k⟩] }
  | .serve i out => s.tasks[i]?.map fun t => { s.deliver t out with tasks := s.tasks.eraseIdx i }
  | .reload r =>
    some { s with
      ch := Function.update s.ch r S.new
      reloaded := Function.update s.reloaded r true }
  | .resume x =>
    if S.removed x = false ∧ ∀ r, S.home r = x → s.reloaded r = true then
      some { s with resumed := Function.update s.resumed x true }
    else none
  | .advance =>
    if ∀ x, S.removed x = false → s.resumed x = true then some { s with phase := .normal }
    else none

/-- Every order of the resumes, interleaved with client `Put`s. -/
def machine (S : Plan Shard Replica) : Machine (Resuming Shard Replica) (Label Shard Replica) :=
  ⟨next S⟩

end Steps

/-- Every key with an acknowledged `Put` is at its owner under the new ring, with the last value
that was acknowledged, and no shard stores a key that it does not own. -/
structure Kept (S : Scale Shard Replica) (s : Resuming Shard Replica) : Prop where
  acked : ∀ k v, s.acked k = some v → (s.store (S.new k)).lookup k = some v
  owned : ∀ x k v, (s.store x).lookup k = some v → x = S.new k

/-- The replica that a `Put` enters through routes its key to the new owner, and a `Put` that takes
effect is acknowledged. -/
def WellRouted (S : Scale Shard Replica) (s : Resuming Shard Replica) :
    Label Shard Replica → Prop
  | .put e k _ => s.ch e k = S.new k
  | .serve _ out => out ≠ .lost
  | _ => True

section

variable {S : Plan Shard Replica} {s s' : Resuming Shard Replica}

/-- The invariant: `Kept`, and the `Put`s that are under way go to the new owners. -/
structure Inv (S : Scale Shard Replica) (s : Resuming Shard Replica) : Prop where
  kept : s.Kept S
  routed : ∀ t ∈ s.tasks, t.shard = S.new t.key

theorem inv_start (P : Placement S.toScale.after) : Inv S.toScale (start P) where
  kept := by
    refine ⟨nofun, fun x k v hk => P.placed x k ?_⟩
    have hk' : (P.store x).lookup k = some v := hk
    rw [hk']
    simp
  routed _ ht := nomatch ht

variable [DecidableEq Shard]

theorem Kept.put (h : s.Kept S.toScale) {t : Routed Shard} (ht : t.shard = S.new t.key) :
    Kept S.toScale { s with
      store := Function.update s.store t.shard ((s.store t.shard).insert t.key t.value)
      acked := Function.update s.acked t.key (some t.value) } := by
  -- the store of a shard after the `Put`
  have hlookup : ∀ x k, (Function.update s.store t.shard
      ((s.store t.shard).insert t.key t.value) x).lookup k =
        if x = t.shard ∧ k = t.key then some t.value else (s.store x).lookup k := by
    intro x k
    by_cases hx : x = t.shard
    · subst hx
      rw [Function.update_self, lookup_insert_eq]
      simp only [true_and]
    · rw [Function.update_of_ne hx, if_neg fun hc => hx hc.1]
  refine ⟨fun k v hk => ?_, fun x k v hk => ?_⟩
  · show (Function.update s.store t.shard _ (S.new k)).lookup k = some v
    have hk' : Function.update s.acked t.key (some t.value) k = some v := hk
    rw [hlookup]
    by_cases hkt : k = t.key
    · subst hkt
      rw [if_pos ⟨ht.symm, rfl⟩, ← hk', Function.update_self]
    · rw [if_neg fun hc => hkt hc.2]
      rw [Function.update_of_ne hkt] at hk'
      exact h.acked k v hk'
  · have hk' : (Function.update s.store t.shard _ x).lookup k = some v := hk
    rw [hlookup] at hk'
    split at hk'
    · rename_i hc
      rw [hc.1, hc.2]
      exact ht
    · exact h.owned x k v hk'

omit [DecidableEq Shard] in
theorem Inv.erase (h : Inv S.toScale s) (i : ℕ) :
    ∀ t ∈ s.tasks.eraseIdx i, t.shard = S.new t.key :=
  fun t ht => h.routed t (List.mem_of_mem_eraseIdx ht)

variable [Fintype Shard] [Fintype Replica] [DecidableEq Replica]

theorem Inv.serve (h : Inv S.toScale s) {i : ℕ} {out : Outcome} (hout : out ≠ .lost)
    (hst : s.next S (.serve i out) = some s') : Inv S.toScale s' := by
  obtain ⟨t, ht, rfl⟩ := Option.map_eq_some_iff.1 hst
  have hroute := h.routed t (List.mem_of_getElem? ht)
  refine ⟨?_, h.erase i⟩
  unfold deliver
  split
  · rename_i hc
    cases out with
    | ok => exact ⟨(h.kept.put hroute).acked, (h.kept.put hroute).owned⟩
    | failed => exact absurd hc (by simp [Outcome.applied])
    | lost => exact absurd rfl hout
  · exact ⟨h.kept.acked, h.kept.owned⟩

theorem Inv.next (h : Inv S.toScale s) {l : Label Shard Replica} (hok : s.WellRouted S.toScale l)
    (hst : s.next S l = some s') : Inv S.toScale s' := by
  cases l with
  | put e k v =>
    simp only [Resuming.next] at hst
    split at hst <;> cases hst
    refine ⟨⟨h.kept.acked, h.kept.owned⟩, fun t ht => ?_⟩
    rcases List.mem_append.1 ht with ht | ht
    · exact h.routed t ht
    · rw [List.mem_singleton.1 ht]
      exact hok
  | serve i out => exact h.serve hok hst
  | reload r => cases hst; exact ⟨⟨h.kept.acked, h.kept.owned⟩, h.routed⟩
  | resume x =>
    simp only [Resuming.next] at hst
    split at hst <;> cases hst
    exact ⟨⟨h.kept.acked, h.kept.owned⟩, h.routed⟩
  | advance =>
    simp only [Resuming.next] at hst
    split at hst <;> cases hst
    exact ⟨⟨h.kept.acked, h.kept.owned⟩, h.routed⟩

/-- **No write is stranded while shards resume one after another**, in every run in which each `Put`
enters through a replica that routes its key to the new owner, and none takes effect without being
acknowledged: in every state, and so in phase `Normal`, every acknowledged `Put` is at the owner of
its key, and no shard stores a key that it does not own. -/
theorem kept_of_routed (P : Placement S.toScale.after)
    (h : (machine S).ReachedBy (WellRouted S.toScale) (start P) s) : s.Kept S.toScale :=
  (h.invariant (I := Inv S.toScale) (inv_start P) fun _ _ _ hi hok hst => hi.next hok hst).kept

end

/-- No key is stored. -/
def noKeys : Placement Plan.moveAll.toScale.after := ⟨fun _ => ∅, fun _ _ hk => absurd rfl hk⟩

/-- Shard `true` resumes first, and takes a `Put` through its own replica. -/
theorem kept_of_routed_put :
    ∃ s, (machine Plan.moveAll).ReachedBy (WellRouted Plan.moveAll.toScale) (start noKeys) s ∧
      s.phase = .normal ∧ s.acked "a" = some "1" ∧ s.Kept Plan.moveAll.toScale := by
  obtain ⟨s, hs, hp, hacked⟩ : ∃ s,
      (machine Plan.moveAll).ReachedBy (WellRouted Plan.moveAll.toScale) (start noKeys) s ∧
      s.phase = .normal ∧ s.acked "a" = some "1" :=
    ⟨_, .head (l := .reload true) trivial rfl <|
      .head (l := .resume true) trivial rfl <|
      .head (l := .put true "a" "1") rfl rfl <|
      .head (l := .serve 0 .ok) (by simp [WellRouted]) rfl <|
      .head (l := .reload false) trivial rfl <|
      .head (l := .resume false) trivial rfl <|
      .head (l := .advance) trivial rfl <| .start, rfl, rfl⟩
  exact ⟨s, hs, hp, hacked, kept_of_routed noKeys hs⟩

/-- **A write is stranded at the old owner of its key.**  Shard `false` resumes first; the replica
of shard `true` still has the old ring and routes a `Put` there, where it is stored and
acknowledged. -/
theorem not_kept :
    ∃ s, (machine Plan.moveAll).Reached (start noKeys) s ∧ s.phase = .normal ∧
      s.acked "a" = some "1" ∧ (s.store true).lookup "a" = none ∧
      ¬ s.Kept Plan.moveAll.toScale := by
  refine ⟨_, Machine.Reached.of_run
    [.reload false, .resume false, .put true "a" "1", .serve 0 .ok, .reload true, .resume true,
      .advance] rfl, rfl, rfl, rfl, ?_⟩
  intro h
  exact absurd (h.acked "a" "1" rfl) (by decide)

end Resuming

end ShardedKvs
