import ShardedKvs.Replica.Move
import ShardedKvs.Scale.Writes

/-!
# When the redistribution is over

The controller leaves `RedistributingKeys` when the counts of one round add up to 0.  A count looks
at stored keys only.  A `Put` that is on its way, that its sender has given up on, or that a deposed
leader has still to send leaves no trace in any store.  Clients write until the first `PauseWrites`
and again at every shard that has resumed.

* `Draining.machine` : every run of a scale operation with delayed `Put`s.
* `Draining.Over` : no redistribution `Put` is applied, or under way, in phase `Normal`, and none is
  applied after a client write that came after the resume.
* `Draining.quiet_of_pendingKeys` : **a count of 0 means that the shard is quiet**, as long as no
  call takes effect after its end and a shard has one goroutine at a time that holds a key.
* `Draining.over_of_drains` : **the redistribution is over** when this is so, and the reads of the
  goroutines, the counts and the reloads are up to date.
* `Draining.not_over` : a `Put` that timed out is applied after the resume, over a client's write.
-/

namespace ShardedKvs

/-- A commit, as the history of a scale operation records it. -/
inductive Commit (Shard : Type*) where
  /-- A goroutine's call takes effect at the shard `x`, in the given phase. -/
  | moved (phase : Phase) (x : Shard) (e : KVFSMLogEntry)
  /-- A client write at the shard `x`, which has resumed or not. -/
  | client (resumed : Bool) (x : Shard) (req : Request)

namespace Commit

variable {Shard : Type*}

/-- The commit is a redistribution `Put`. -/
def IsPut : Commit Shard → Prop
  | .moved _ _ e => e.operation = SET
  | .client _ _ _ => False

/-- The commit is a client write after the resume of the shard. -/
def AfterResume : Commit Shard → Prop
  | .moved _ _ _ => False
  | .client resumed _ _ => resumed = true

end Commit

/-- The state of a scale operation with delayed calls. -/
structure Draining (Shard Replica : Type*) extends Movers Shard Replica where
  phase : Phase
  /-- The controller has called `PauseWrites` of some shard. -/
  pausing : Bool
  /-- The shards that have answered `IsPaused`. -/
  paused : Shard → Bool
  /-- The answers of this polling round. -/
  round : Shard → Option ℤ
  /-- The replicas that have reloaded their config since the ConfigMap was finalized. -/
  reloaded : Replica → Bool
  /-- The shards that have answered `IsResumed`. -/
  resumed : Shard → Bool
  /-- The client requests that are under way to a shard. -/
  tasks : List (Request × Shard)
  history : List (Commit Shard)

namespace Draining

variable {Shard Replica : Type*}

/-- The steps of a scale operation. -/
inductive Label (Shard Replica : Type*) where
  /-- A client sends a write through the replica `e`. -/
  | issue (e : Replica) (req : Request)
  /-- The `i`-th request reaches its shard, and is committed or not. -/
  | serve (i : ℕ) (applied : Bool)
  /-- `PauseWrites` of a shard. -/
  | pause (x : Shard) (answered : Bool)
  /-- The controller calls `RedistributeKeys` of a shard, and the replica `r` serves the call. -/
  | poll (r : Replica) (answered : Bool)
  /-- A poll that the controller has given up on starts the goroutine of `r`. -/
  | start (r : Replica)
  | move (l : MoveLabel Replica)
  /-- `ReloadConfig` on `r`, when the mounted config is the final one (`fresh`) or still the one
  from before the scale operation. -/
  | reload (r : Replica) (fresh : Bool)
  /-- `ResumeWrites` of a shard answers `IsResumed: true`. -/
  | resume (x : Shard)
  /-- A new `Reconcile` starts. -/
  | reconcile
  /-- The controller persists the next phase. -/
  | advance

/-- A cluster at the start of a scale operation. -/
def opened (S : Scale Shard Replica) : Draining Shard Replica where
  toMovers := Movers.opened S
  phase := .stoppingWrites
  pausing := false
  paused _ := false
  round _ := none
  reloaded _ := false
  resumed _ := false
  tasks := []
  history := []

section Steps

variable [Fintype Shard] [Fintype Replica] [DecidableEq Shard] [DecidableEq Replica]

/-- The next phase, if the answers allow it. -/
def advance (S : Plan Shard Replica) (s : Draining Shard Replica) :
    Option (Draining Shard Replica) :=
  let s' := { s with round := fun _ => none }
  match s.phase with
  | .stoppingWrites =>
    if ∀ x, s.paused x = true then
      some { s' with phase := .redistributingKeys, pausing := true }
    else none
  | .redistributingKeys =>
    if (∀ x, s.round x ≠ none) ∧ ∑ x, (s.round x).getD 0 = 0 then
      some { s' with phase := .finalizingScale }
    else none
  | .finalizingScale => some { s' with phase := .resumingWrites }
  | .resumingWrites =>
    if ∀ x, S.removed x = false → s.resumed x = true then some { s' with phase := .normal }
    else none
  | _ => none

omit [Fintype Shard] [Fintype Replica] in
/-- A poll: the count, and the goroutine that it starts. -/
def poll (S : Plan Shard Replica) (s : Draining Shard Replica) (r : Replica) (answered : Bool) :
    Draining Shard Replica :=
  { s with
    toMovers := s.toMovers.start r
    round := if answered then
        Function.update s.round (S.home r) (some (s.toMovers.answer S.toScale r))
      else fun _ => none }

/-- One step of a scale operation. -/
def next (S : Plan Shard Replica) (s : Draining Shard Replica) :
    Label Shard Replica → Option (Draining Shard Replica)
  | .issue e req =>
    if req.isClient then some { s with tasks := s.tasks ++ [(req, s.ch e req.key)] } else none
  | .serve i applied => s.tasks[i]?.map fun t =>
    if applied then
      { s with
        toReplicas := s.toReplicas.append t.2 t.1.entry
        tasks := s.tasks.eraseIdx i
        history := s.history ++ [.client (s.resumed t.2) t.2 t.1] }
    else { s with tasks := s.tasks.eraseIdx i }
  | .pause x answered =>
    if s.phase = .stoppingWrites then
      some { s with pausing := true, paused := Function.update s.paused x (answered || s.paused x) }
    else none
  | .poll r answered =>
    if s.phase = .redistributingKeys ∧ s.round (S.home r) = none then some (s.poll S r answered)
    else none
  | .start r =>
    if s.phase = .stoppingWrites then none else some { s with toMovers := s.toMovers.start r }
  | .move l => (s.toMovers.step S.toScale l).map fun m =>
    { s with
      toMovers := m
      history := s.history ++ ((s.toMovers.commits S.toScale l).map fun p =>
        Commit.moved s.phase p.1 p.2).toList }
  | .reload r fresh =>
    if s.phase.settled then
      some { s with
        ch := Function.update s.ch r (if fresh then S.new else S.old)
        reloaded := Function.update s.reloaded r true }
    else none
  | .resume x =>
    if s.phase = .resumingWrites ∧ ∀ r, S.home r = x → s.reloaded r = true then
      some { s with resumed := Function.update s.resumed x true }
    else none
  | .reconcile => some { s with round := fun _ => none }
  | .advance => s.advance S

/-- Every run of a scale operation. -/
def machine (S : Plan Shard Replica) : Machine (Draining Shard Replica) (Label Shard Replica) :=
  ⟨next S⟩

end Steps

/-- No goroutine of the shard holds a key, and none of its `Put`s may still take effect. -/
structure Quiet (S : Scale Shard Replica) (s : Movers Shard Replica) (x : Shard) : Prop where
  loop : ∀ r k v, S.home r = x → s.loop r ≠ .got k v
  late : ∀ y k v, (y, KVFSMLogEntry.set k v) ∈ s.late → S.old k ≠ x

/-- The redistribution is over when the controller says so: in phase `Normal` no redistribution
`Put` has been applied and none is under way, and none has been applied after a client write that
came after the resume. -/
structure Over (S : Scale Shard Replica) (s : Draining Shard Replica) : Prop where
  put : ∀ x e, .moved .normal x e ∈ s.history → e.operation ≠ SET
  kept : s.history.Pairwise fun a b => a.AfterResume → ¬ b.IsPut
  quiet : s.phase = .normal → ∀ x, Quiet S s.toMovers x

/-- The clients issue no write between the first pause and the resume of the shard. -/
def Paused (s : Draining Shard Replica) : Label Shard Replica → Prop
  | .issue e req => s.pausing = false ∨ s.resumed (s.ch e req.key) = true
  | _ => True

/-- The step of a goroutine is prompt: it reads a key on a current replica, while no other goroutine
of the shard holds one, and its calls do not take effect after their end. -/
def Prompt (S : Scale Shard Replica) (m : Movers Shard Replica) : MoveLabel Replica → Prop
  | .read r _ => m.Current S.home r ∧ ∀ r' k, r' ≠ r → S.home r' = S.home r → ¬ m.Holds r' k
  | .send _ out | .purge _ out => out ≠ .lost
  | .stop _ underWay => underWay = false
  | _ => True

/-- The step drains the shards: the goroutines are prompt; a shard answers 0 only on a current
replica; no count wraps around; no config is reloaded from before the scale operation; and a client
write is issued, and committed, before the first pause or after the resume of its shard. -/
def Drains [DecidableEq Shard] (S : Plan Shard Replica) (s : Draining Shard Replica) :
    Label Shard Replica → Prop
  | .issue e req => s.Paused (.issue e req)
  | .serve i _ => ∀ t, s.tasks[i]? = some t → s.pausing = false ∨ s.resumed t.2 = true
  | .poll r _ => s.toMovers.pendingKeys S.toScale r < 2 ^ 31 ∧
      (s.toMovers.answer S.toScale r = 0 → s.Current S.home r)
  | .move l => Prompt S.toScale s.toMovers l
  | .reload _ fresh => fresh = true
  | _ => True

/-! ### A count of 0 -/

section Carried

variable [DecidableEq Shard] [DecidableEq Replica] {S : Scale Shard Replica}
  {m m' : Movers Shard Replica} {l : MoveLabel Replica}

/-- Every key that is under way is still stored at its old owner: no call is late, a key that a
goroutine holds is committed at the shard of the goroutine, and no other goroutine of the shard,
which could delete it, holds a key. -/
structure Carried (S : Scale Shard Replica) (m : Movers Shard Replica) : Prop where
  late : m.late = []
  stored : ∀ r k, m.Holds r k → (m.committed (S.home r)).lookup k ≠ none
  alone : ∀ r r' k k', m.Holds r k → m.Holds r' k' → S.home r = S.home r' → r = r'

omit [DecidableEq Shard] [DecidableEq Replica] in
theorem carried_of_off (hoff : ∀ r, m.loop r = .off) (hlate : m.late = []) : Carried S m := by
  have hnone : ∀ r k, ¬ m.Holds r k := by
    rintro r k (⟨v, hr⟩ | hr) <;> exact nomatch (hoff r).symm.trans hr
  exact ⟨hlate, fun r k hr => absurd hr (hnone r k), fun r _ k _ hr => absurd hr (hnone r k)⟩

theorem late_of_prompt (hlate : m.late = []) (hok : Prompt S m l) (hst : m.step S l = some m') :
    m'.late = [] := by
  cases l with
  | apply r =>
    obtain ⟨d, -, rfl⟩ := Option.map_eq_some_iff.1 hst
    exact hlate
  | restore | restart => cases hst; exact hlate
  | read r k =>
    simp only [Movers.step, Movers.read] at hst
    split at hst
    · split at hst <;> cases hst <;> exact hlate
    · cases hst
  | send r out =>
    simp only [Movers.step, Movers.send] at hst
    split at hst <;> cases hst
    cases out with
    | ok | failed => exact hlate
    | lost => exact absurd rfl hok
  | purge r out =>
    simp only [Movers.step, Movers.purge] at hst
    split at hst <;> cases hst
    cases out with
    | ok | failed => exact hlate
    | lost => exact absurd rfl hok
  | stop r underWay =>
    cases hst
    rw [show underWay = false from hok]
    unfold Movers.stop
    split <;> exact hlate
  | settle i =>
    obtain ⟨c, hc, -⟩ := Option.map_eq_some_iff.1 hst
    obtain ⟨p, hp, -⟩ := Calls.settle_eq_some hc
    rw [hlate] at hp
    cases hp

/-- A deletion is committed by the goroutine that holds the key, which lets it go. -/
theorem holder_of_delete (hlate : m.late = []) {x : Shard} {k : String}
    (hc : m.commits S l = some (x, .delete k)) (hst : m.step S l = some m') :
    ∃ r, S.home r = x ∧ m.Holds r k ∧ ∀ k', ¬ m'.Holds r k' := by
  unfold Movers.commits at hc
  split at hc
  · split at hc <;> cases hc
  · split at hc <;> cases hc
    rename_i r _ hr
    refine ⟨r, rfl, .inr hr, fun k' hr' => ?_⟩
    simp only [Movers.step, Movers.purge, hr] at hst
    cases hst
    rcases hr' with ⟨v, hr'⟩ | hr' <;>
      rw [Movers.loop_goto, if_pos rfl] at hr' <;> cases hr'
  · rw [hlate] at hc
    exact nomatch hc
  · cases hc

theorem Carried.step (h : Carried S m) (ho : m.Orderly S) (hok : Prompt S m l)
    (hst : m.step S l = some m') : Carried S m' := by
  have hs := Movers.stepped_of_step hst
  refine ⟨late_of_prompt h.late hok hst, fun r k hr => ?_, fun r r' k k' hr hr' hhome => ?_⟩
  · have hstored : (m.committed (S.home r)).lookup k ≠ none := by
      rcases hs.holds hr with hr | ⟨rfl, v, hget⟩
      · exact h.stored r k hr
      · rw [(ho.replays.get_current hok.1 k v).1 hget]
        simp
    rcases hs.lookup_committed (S.home r) k with hk | ⟨e, hc, hpick⟩
    · rw [hk]
      exact hstored
    · rcases ho.commits hc with ⟨k', v, rfl, -⟩ | ⟨k', rfl, -⟩
      · rw [KVFSMLogEntry.pickKey_set] at hpick
        split at hpick
        · rw [← Option.some.inj hpick]
          simp
        · exact nomatch hpick
      · -- the goroutine that deletes the key is the one that holds it, and it holds nothing after
        rw [KVFSMLogEntry.pickKey_delete] at hpick
        split at hpick
        · obtain ⟨r₀, hhome, hr₀, hfree⟩ := holder_of_delete h.late hc hst
          rcases hs.holds hr with hr' | ⟨rfl, -⟩
          · exact absurd (h.alone r r₀ _ _ hr' hr₀ hhome.symm ▸ hr) (hfree k)
          · exact nomatch hc
        · exact nomatch hpick
  · rcases hs.holds hr with hr | ⟨rfl, -⟩
    · rcases hs.holds hr' with hr' | ⟨rfl, -⟩
      · exact h.alone r r' k k' hr hr' hhome
      · by_contra hne
        exact hok.2 r k hne hhome hr
    · rcases hs.holds hr' with hr' | ⟨hl, -⟩
      · by_contra hne
        exact hok.2 r' k' (Ne.symm hne) hhome.symm hr'
      · exact (MoveLabel.read.inj hl).1

omit [DecidableEq Shard] in
theorem Carried.start (h : Carried S m) (r : Replica) : Carried S (m.start r) := by
  have hholds : ∀ {r' k}, (m.start r).Holds r' k → m.Holds r' k := by
    rintro r' k (⟨v, hr⟩ | hr)
    · exact .inl ⟨v, Movers.eq_of_start (by simp) hr⟩
    · exact .inr (Movers.eq_of_start (by simp) hr)
  refine ⟨by rw [Movers.toCalls_start]; exact h.late, fun r' k hr => ?_,
    fun r₁ r₂ k₁ k₂ h₁ h₂ => h.alone r₁ r₂ k₁ k₂ (hholds h₁) (hholds h₂)⟩
  rw [Movers.toCalls_start]
  exact h.stored r' k (hholds hr)

omit [DecidableEq Replica] in
/-- **A count of 0 means that the shard is quiet**: a key that a goroutine still had in its hands
would be counted. -/
theorem quiet_of_pendingKeys (h : Carried S m) (ho : m.Orderly S) {r : Replica}
    (hring : m.ch r = S.old) (hcur : m.Current S.home r) (hp : m.pendingKeys S r = 0) :
    Quiet S m (S.home r) := by
  refine ⟨fun r' k v hr hgot => ?_, fun y k v hlate => ?_⟩
  · obtain ⟨hold, hnew⟩ := ho.got r' k v hgot
    rw [hr] at hold hnew
    have hstored := h.stored r' k (.inl ⟨v, hgot⟩)
    rw [hr] at hstored
    exact hstored (ho.lookup_of_pendingKeys hring hcur hp hold hnew)
  · rw [h.late] at hlate
    exact nomatch hlate

end Carried

/-! ### A shard that is done -/

section Done

variable [DecidableEq Shard] [DecidableEq Replica] {S : Scale Shard Replica}
  {m m' : Movers Shard Replica} {x : Shard}

/-- No committed key has to leave the shard. -/
def Cleared (S : Scale Shard Replica) (m : Movers Shard Replica) (x : Shard) : Prop :=
  ∀ k, S.old k = x → S.new k ≠ x → (m.committed x).lookup k = none

/-- The goroutines of the shard find nothing to move: it is cleared, or all its replicas are on the
new ring. -/
structure Done (S : Scale Shard Replica) (m : Movers Shard Replica) (x : Shard) : Prop where
  quiet : Quiet S m x
  cleared : Cleared S m x ∨ ∀ r, S.home r = x → m.ch r = S.new

/-- The only entries that goroutines commit at a shard for a key that has to leave are deletions. -/
theorem Cleared.step {l : MoveLabel Replica} (h : Cleared S m x) (ho : m.Orderly S)
    (hst : m.step S l = some m') : Cleared S m' x := by
  intro k hold hnew
  rcases (Movers.stepped_of_step hst).lookup_committed x k with hk | ⟨e, hc, hpick⟩
  · rw [hk]
    exact h k hold hnew
  · rcases ho.commits hc with ⟨k', v, rfl, hx, -⟩ | ⟨k', rfl, -⟩
    · rw [KVFSMLogEntry.pickKey_set] at hpick
      split at hpick
      · rename_i hk
        exact absurd (hk ▸ hx.symm) hnew
      · exact nomatch hpick
    · rw [KVFSMLogEntry.pickKey_delete] at hpick
      split at hpick
      · exact (Option.some.inj hpick).symm
      · exact nomatch hpick

omit [DecidableEq Replica] in
/-- A current replica of a shard that is done has no key to move. -/
theorem Done.get_error (h : Done S m x) (ho : m.Orderly S) {r : Replica} (hr : S.home r = x)
    (hcur : m.Current S.home r) {k v : String} (hmust : m.mustMove S r k = true) :
    (m.node r).get k ≠ .ok v := by
  intro hget
  obtain ⟨hch, hold, hnew⟩ := ho.leaves hmust
  rcases h.cleared with hc | hring
  · have hk := (ho.replays.get_current hcur k v).1 hget
    rw [hr, hc k (hold.trans hr) (hr ▸ hnew)] at hk
    exact nomatch hk
  · -- on the new ring there is nothing to move
    refine ((Movers.mustMove_iff r k).1 hmust).1 ?_
    rw [hring r hr]

/-- No goroutine of a shard that is done gets hold of a key again. -/
theorem Done.step {l : MoveLabel Replica} (h : Done S m x) (ho : m.Orderly S)
    (hok : Prompt S m l) (hst : m.step S l = some m') : Done S m' x := by
  have hs := Movers.stepped_of_step hst
  refine ⟨⟨fun r k v hr hgot => ?_, fun y k v hp => ?_⟩, ?_⟩
  · rcases hs.got hgot with hgot | ⟨hl, hmust, hget⟩
    · exact h.quiet.loop r k v hr hgot
    · subst hl
      exact h.get_error ho hr hok.1 hmust hget
  · rcases hs.late hp with hp | ⟨r, k', v', hr, hp⟩ | ⟨r, k', -, hp⟩
    · exact h.quiet.late y k v hp
    · -- the sender was not a goroutine of this shard
      obtain ⟨-, he⟩ := Prod.mk.inj hp
      obtain ⟨rfl, rfl⟩ : k = k' ∧ v = v' := by simpa [KVFSMLogEntry.set] using he
      intro hold
      exact h.quiet.loop r k v ((ho.got r k v hr).1.symm.trans hold) hr
    · exact absurd (congrArg (fun p => p.2.operation) hp)
        (by simp [KVFSMLogEntry.set, KVFSMLogEntry.delete, SET, DELETE])
  · rcases h.cleared with hc | hring
    · exact .inl (hc.step ho hst)
    · right
      rw [hs.ch]
      exact hring

omit [DecidableEq Shard] in
theorem Done.start (h : Done S m x) (r : Replica) : Done S (m.start r) x := by
  refine ⟨⟨fun r' k v hr hgot => ?_, ?_⟩, ?_⟩
  · exact h.quiet.loop r' k v hr (Movers.eq_of_start (by simp) hgot)
  · rw [Movers.toCalls_start]
    exact h.quiet.late
  · unfold Cleared
    rw [Movers.toCalls_start, Movers.ch_start]
    exact h.cleared

omit [DecidableEq Replica] in
theorem done_of_pendingKeys (h : Carried S m) (ho : m.Orderly S) {r : Replica}
    (hring : m.ch r = S.old) (hcur : m.Current S.home r) (hp : m.pendingKeys S r = 0) :
    Done S m (S.home r) :=
  ⟨quiet_of_pendingKeys h ho hring hcur hp,
    .inl fun _ hold hnew => ho.lookup_of_pendingKeys hring hcur hp hold hnew⟩

omit [DecidableEq Replica] in
theorem Done.append (h : Done S m x) {y : Shard} (hy : ∀ r, S.home r = y → m.ch r = S.new)
    (e : KVFSMLogEntry) : Done S { m with toReplicas := m.toReplicas.append y e } x := by
  refine ⟨⟨h.quiet.loop, h.quiet.late⟩, ?_⟩
  by_cases hx : x = y
  · subst hx
    exact .inr hy
  · rcases h.cleared with hc | hring
    · left
      intro k hold hnew
      show (storeOf ((m.toReplicas.append y e).log x)).lookup k = none
      rw [Replicas.log_append, if_neg hx]
      exact hc k hold hnew
    · exact .inr hring

omit [DecidableEq Shard] in
theorem Done.reload (h : Done S m x) (r : Replica) :
    Done S { m with ch := Function.update m.ch r S.new } x := by
  refine ⟨⟨h.quiet.loop, h.quiet.late⟩, h.cleared.imp_right fun hring r' hr => ?_⟩
  by_cases hrr : r' = r
  · rw [hrr]
    exact Function.update_self ..
  · exact (Function.update_of_ne hrr ..).trans (hring r' hr)

end Done

/-! ### The invariant of a run

It has four parts, each about a few components of the state only. -/

/-- The rings: the old one until the keys have moved, then the new one on every replica that has
reloaded, and so on all replicas of a shard that has resumed. -/
structure Rings (S : Plan Shard Replica) (m : Movers Shard Replica) (phase : Phase)
    (reloaded : Replica → Bool) (resumed : Shard → Bool) : Prop where
  orderly : m.Orderly S.toScale
  ring : phase.settled = false → ∀ r, m.ch r = S.old
  reload : ∀ r, reloaded r = true → m.ch r = S.new
  resume : ∀ x, resumed x = true →
    phase.settled = true ∧ ∀ r, S.home r = x → reloaded r = true

/-- The phases: no goroutine runs before keys are redistributed. -/
structure Phases (loop : Replica → Loop) (late : List (Shard × KVFSMLogEntry)) (phase : Phase)
    (pausing : Bool) : Prop where
  cases : phase = .stoppingWrites ∨ phase = .redistributingKeys ∨ phase.settled = true
  early : phase = .stoppingWrites → (∀ r, loop r = .off) ∧ late = []
  pause : pausing = false → phase = .stoppingWrites

/-- The counts: while shards are counted, keys under way are still stored, and a shard that has
answered 0 is done. -/
structure Tally (S : Scale Shard Replica) (m : Movers Shard Replica) (phase : Phase)
    (round : Shard → Option ℤ) : Prop where
  carried : phase = .redistributingKeys → Carried S m
  nonneg : ∀ x n, round x = some n → 0 ≤ n
  counted : phase = .redistributingKeys → ∀ x, round x = some 0 → Done S m x
  done : phase.settled = true → ∀ x, Done S m x

/-- The history: redistribution `Put`s come before the client writes that follow a resume. -/
structure Ledger (phase : Phase) (history : List (Commit Shard)) : Prop where
  put : ∀ p x e, .moved p x e ∈ history → e.operation = SET → p = .redistributingKeys
  clients : ∀ c ∈ history, c.AfterResume → phase.settled = true
  kept : history.Pairwise fun a b => a.AfterResume → ¬ b.IsPut

/-- The invariant of a scale operation that drains its shards. -/
structure Inv (S : Plan Shard Replica) (s : Draining Shard Replica) : Prop where
  rings : Rings S s.toMovers s.phase s.reloaded s.resumed
  phases : Phases s.loop s.late s.phase s.pausing
  tally : Tally S.toScale s.toMovers s.phase s.round
  ledger : Ledger s.phase s.history

variable {S : Plan Shard Replica} {s s' : Draining Shard Replica}

theorem inv_opened (S : Plan Shard Replica) : Inv S (opened S.toScale) where
  rings := ⟨Movers.orderly_opened S.toScale, fun _ _ => rfl, nofun, nofun⟩
  phases := ⟨.inl rfl, fun _ => ⟨fun _ => rfl, rfl⟩, fun _ => rfl⟩
  tally := ⟨nofun, nofun, nofun, nofun⟩
  ledger := ⟨fun _ _ _ hc => absurd hc List.not_mem_nil,
    fun _ hc => absurd hc List.not_mem_nil, .nil⟩

theorem Inv.over (h : Inv S s) : s.Over S.toScale where
  put x e hc he := nomatch h.ledger.put _ x e hc he
  kept := h.ledger.kept
  quiet hp x := (h.tally.done (by rw [hp]; rfl) x).quiet

/-! ### Clients -/

/-- All replicas of a shard that has resumed are on the new ring. -/
theorem Inv.ring_of_resumed (h : Inv S s) {x : Shard} (hx : s.resumed x = true) (r : Replica)
    (hr : S.home r = x) : s.ch r = S.new :=
  h.rings.reload r ((h.rings.resume x hx).2 r hr)

theorem Inv.ledger_client (h : Inv S s) (t : Request × Shard) :
    Ledger s.phase (s.history ++ [.client (s.resumed t.2) t.2 t.1]) := by
  refine ⟨fun p x e hc he => ?_, fun c hc hr => ?_, ?_⟩
  · rcases List.mem_append.1 hc with hc | hc
    · exact h.ledger.put p x e hc he
    · exact nomatch List.mem_singleton.1 hc
  · rcases List.mem_append.1 hc with hc | hc
    · exact h.ledger.clients c hc hr
    · rw [List.mem_singleton.1 hc] at hr
      exact (h.rings.resume t.2 hr).1
  · refine List.pairwise_append.2
      ⟨h.ledger.kept, List.pairwise_singleton _ _, fun a _ b hb _ hpb => ?_⟩
    rw [List.mem_singleton.1 hb] at hpb
    exact hpb

section

variable [DecidableEq Shard]

theorem Inv.serve (h : Inv S s) {t : Request × Shard} {i : ℕ}
    (hok : s.pausing = false ∨ s.resumed t.2 = true) :
    Inv S { s with
      toReplicas := s.toReplicas.append t.2 t.1.entry
      tasks := s.tasks.eraseIdx i
      history := s.history ++ [.client (s.resumed t.2) t.2 t.1] } := by
  refine ⟨⟨h.rings.orderly.append t.2 t.1.entry, h.rings.ring, h.rings.reload, h.rings.resume⟩,
    h.phases, ?_, h.ledger_client t⟩
  rcases hok with hpausing | hresumed
  · -- before the first pause no shard has been counted
    have hp := h.phases.pause hpausing
    refine ⟨fun hp' => ?_, h.tally.nonneg, fun hp' => ?_, fun hp' => ?_⟩
    · exact nomatch hp.symm.trans hp'
    · exact nomatch hp.symm.trans hp'
    · rw [hp] at hp'
      exact nomatch hp'
  · have hring := h.ring_of_resumed hresumed
    have hsettled := (h.rings.resume t.2 hresumed).1
    refine ⟨fun hp => ?_, h.tally.nonneg,
      fun hp x hx => (h.tally.counted hp x hx).append hring t.1.entry,
      fun hp x => (h.tally.done hp x).append hring t.1.entry⟩
    rw [show s.phase = .redistributingKeys from hp] at hsettled
    exact nomatch hsettled

/-! ### Goroutines -/

omit [DecidableEq Shard] in
/-- A redistribution `Put` takes effect only while keys are redistributed. -/
theorem Inv.phase_of_put (h : Inv S s) {l : MoveLabel Replica} {x : Shard} {e : KVFSMLogEntry}
    (hc : s.toMovers.commits S.toScale l = some (x, e)) (he : e.operation = SET) :
    s.phase = .redistributingKeys := by
  rcases h.rings.orderly.commits hc with ⟨k, v, rfl, -, -, hput⟩ | ⟨k, rfl, -⟩
  · rcases h.phases.cases with hp | hp | hp
    · obtain ⟨hoff, hlate⟩ := h.phases.early hp
      rcases hput with ⟨r, hr⟩ | hput
      · exact nomatch (hoff r).symm.trans hr
      · rw [hlate] at hput
        exact nomatch hput
    · exact hp
    · rcases hput with ⟨r, hr⟩ | hput
      · exact absurd hr ((h.tally.done hp (S.home r)).quiet.loop r k v rfl)
      · exact absurd rfl ((h.tally.done hp (S.old k)).quiet.late x k v hput)
  · exact absurd he (by simp [KVFSMLogEntry.delete, SET, DELETE])

omit [DecidableEq Shard] in
theorem Inv.ledger_moved (h : Inv S s) (l : MoveLabel Replica) :
    Ledger s.phase (s.history ++ ((s.toMovers.commits S.toScale l).map fun p =>
      Commit.moved s.phase p.1 p.2).toList) := by
  cases hc : s.toMovers.commits S.toScale l with
  | none =>
    rw [Option.map_none, Option.toList_none, List.append_nil]
    exact h.ledger
  | some q =>
    obtain ⟨y, e'⟩ := q
    rw [Option.map_some, Option.toList_some]
    refine ⟨fun p x e hmem he => ?_, fun c hmem hr => ?_, ?_⟩
    · rcases List.mem_append.1 hmem with hmem | hmem
      · exact h.ledger.put p x e hmem he
      · cases List.mem_singleton.1 hmem
        exact h.phase_of_put hc he
    · rcases List.mem_append.1 hmem with hmem | hmem
      · exact h.ledger.clients c hmem hr
      · rw [List.mem_singleton.1 hmem] at hr
        exact hr.elim
    · refine List.pairwise_append.2
        ⟨h.ledger.kept, List.pairwise_singleton _ _, fun a ha b hb hra hpb => ?_⟩
      rw [List.mem_singleton.1 hb] at hpb
      -- no shard has resumed in the phase in which the `Put` is applied
      have hsettled := h.ledger.clients a ha hra
      rw [h.phase_of_put hc hpb] at hsettled
      exact nomatch hsettled

variable [DecidableEq Replica]

theorem Inv.move (h : Inv S s) {l : MoveLabel Replica} {m : Movers Shard Replica}
    (hok : Prompt S.toScale s.toMovers l) (hst : s.toMovers.step S.toScale l = some m) :
    Inv S { s with
      toMovers := m
      history := s.history ++ ((s.toMovers.commits S.toScale l).map fun p =>
        Commit.moved s.phase p.1 p.2).toList } := by
  have hs := Movers.stepped_of_step hst
  have ho := h.rings.orderly
  refine ⟨⟨ho.step hst, ?_, ?_, h.rings.resume⟩, ⟨h.phases.cases, fun hp => ?_, h.phases.pause⟩,
    ⟨fun hp => (h.tally.carried hp).step ho hok hst, h.tally.nonneg,
      fun hp x hx => (h.tally.counted hp x hx).step ho hok hst,
      fun hp x => (h.tally.done hp x).step ho hok hst⟩, h.ledger_moved l⟩
  · rw [hs.ch]
    exact h.rings.ring
  · rw [hs.ch]
    exact h.rings.reload
  · obtain ⟨hoff, hlate⟩ := h.phases.early hp
    refine ⟨fun r => hs.off (hoff r), List.eq_nil_iff_forall_not_mem.2 fun p hp => ?_⟩
    rcases hs.late hp with hp | ⟨r, k, v, hr, -⟩ | ⟨r, k, hr, -⟩
    · rw [hlate] at hp
      exact nomatch hp
    · exact nomatch (hoff r).symm.trans hr
    · exact nomatch (hoff r).symm.trans hr

omit [DecidableEq Shard] in
theorem Inv.start (h : Inv S s) (hp : s.phase ≠ .stoppingWrites) (r : Replica) :
    Inv S { s with toMovers := s.toMovers.start r } := by
  refine ⟨⟨h.rings.orderly.start r, ?_, ?_, h.rings.resume⟩,
    ⟨h.phases.cases, fun hp' => absurd hp' hp, h.phases.pause⟩,
    ⟨fun hp => (h.tally.carried hp).start r, h.tally.nonneg,
      fun hp x hx => (h.tally.counted hp x hx).start r,
      fun hp x => (h.tally.done hp x).start r⟩, h.ledger⟩
  · rw [Movers.ch_start]
    exact h.rings.ring
  · rw [Movers.ch_start]
    exact h.rings.reload

/-! ### The controller -/

omit [DecidableEq Shard] [DecidableEq Replica] in
theorem Tally.reset {m : Movers Shard Replica} {phase : Phase} {round : Shard → Option ℤ}
    (h : Tally S.toScale m phase round) : Tally S.toScale m phase fun _ => none :=
  ⟨h.carried, nofun, nofun, h.done⟩

theorem Inv.poll (h : Inv S s) {r : Replica} {answered : Bool} (hp : s.phase = .redistributingKeys)
    (hok : s.Drains S (.poll r answered)) : Inv S (s.poll S r answered) := by
  obtain ⟨hfits, hzero⟩ := hok
  obtain ⟨hrings, hphases, htally, hledger⟩ := h.start (by rw [hp]; simp) r
  refine ⟨hrings, hphases, ?_, hledger⟩
  cases answered with
  | false => exact htally.reset
  | true =>
    have hanswer : s.toMovers.answer S.toScale r = s.toMovers.pendingKeys S.toScale r :=
      Int32.toInt_ofNat_of_lt hfits
    refine ⟨htally.carried, fun x n hx => ?_, fun _ x hx => ?_, htally.done⟩
    all_goals
      simp only [Draining.poll, if_true] at hx
      by_cases hxr : x = S.home r
    · rw [hxr, Function.update_self] at hx
      have hn := Option.some.inj hx
      omega
    · rw [Function.update_of_ne hxr] at hx
      exact h.tally.nonneg x n hx
    · rw [hxr, Function.update_self] at hx
      have hcount := Option.some.inj hx
      rw [hxr]
      exact (done_of_pendingKeys (h.tally.carried hp) h.rings.orderly
        (h.rings.ring (by rw [hp]; rfl) r) (hzero hcount) (by omega)).start r
    · rw [Function.update_of_ne hxr] at hx
      exact (h.tally.counted hp x hx).start r

omit [DecidableEq Shard] in
theorem Inv.reload (h : Inv S s) (hp : s.phase.settled = true) (r : Replica) :
    Inv S { s with
      ch := Function.update s.ch r S.new
      reloaded := Function.update s.reloaded r true } := by
  have ho := h.rings.orderly
  refine ⟨⟨⟨Movers.ring_reload ho.ring r, ho.replays, ho.got, ho.sent, ho.late⟩, fun hp' => ?_,
      fun r' hr => ?_, fun x hx => ⟨hp, fun r' hr => ?_⟩⟩, h.phases,
    ⟨fun hp => ⟨(h.tally.carried hp).late, (h.tally.carried hp).stored, (h.tally.carried hp).alone⟩,
      h.tally.nonneg, fun hp x hx => (h.tally.counted hp x hx).reload r,
      fun hp x => (h.tally.done hp x).reload r⟩, h.ledger⟩
  · exact nomatch hp.symm.trans hp'
  · show Function.update s.ch r S.new r' = S.new
    by_cases hrr : r' = r
    · rw [hrr]
      exact Function.update_self ..
    · have hr' : Function.update s.reloaded r true r' = true := hr
      rw [Function.update_of_ne hrr] at hr' ⊢
      exact h.rings.reload r' hr'
  · show Function.update s.reloaded r true r' = true
    by_cases hrr : r' = r
    · rw [hrr]
      exact Function.update_self ..
    · rw [Function.update_of_ne hrr]
      exact (h.rings.resume x hx).2 r' hr

omit [DecidableEq Replica] in
theorem Inv.resume (h : Inv S s) (hp : s.phase = .resumingWrites) {x : Shard}
    (hx : ∀ r, S.home r = x → s.reloaded r = true) :
    Inv S { s with resumed := Function.update s.resumed x true } := by
  refine ⟨⟨h.rings.orderly, h.rings.ring, h.rings.reload, fun y hy => ?_⟩, h.phases, h.tally,
    h.ledger⟩
  have hy' : Function.update s.resumed x true y = true := hy
  refine ⟨by rw [hp]; rfl, ?_⟩
  by_cases hyx : y = x
  · rw [hyx]
    exact hx
  · rw [Function.update_of_ne hyx] at hy'
    exact (h.rings.resume y hy').2

omit [DecidableEq Shard] [DecidableEq Replica] in
theorem Inv.settle (h : Inv S s) {phase : Phase} (hp : phase.settled = true)
    (hs : s.phase ≠ .stoppingWrites) (hdone : ∀ x, Done S.toScale s.toMovers x) :
    Inv S { s with phase := phase, round := fun _ => none } := by
  refine ⟨⟨h.rings.orderly, (fun hp' => nomatch hp.symm.trans hp'), h.rings.reload,
      fun x hx => ⟨hp, (h.rings.resume x hx).2⟩⟩,
    ⟨.inr (.inr hp), fun hp' => ?_, fun hpausing => absurd (h.phases.pause hpausing) hs⟩,
    ⟨fun hp' => ?_, nofun, nofun, fun _ => hdone⟩, ⟨h.ledger.put, fun _ _ _ => hp, h.ledger.kept⟩⟩
  all_goals
    simp only at hp'
    rw [hp'] at hp
    exact nomatch hp

variable [Fintype Shard] [Fintype Replica]

omit [DecidableEq Shard] [DecidableEq Replica] [Fintype Replica] in
theorem Inv.advance (h : Inv S s) (hst : s.advance S = some s') : Inv S s' := by
  unfold Draining.advance at hst
  split at hst
  · rename_i hp
    split at hst <;> cases hst
    have hsettled : s.phase.settled = false := by rw [hp]; rfl
    refine ⟨⟨h.rings.orderly, fun _ => h.rings.ring hsettled, h.rings.reload, fun x hx => ?_⟩,
      ⟨.inr (.inl rfl), nofun, nofun⟩, ⟨fun _ => ?_, nofun, nofun, nofun⟩,
      ⟨h.ledger.put, fun c hc hr => ?_, h.ledger.kept⟩⟩
    · exact nomatch hsettled.symm.trans (h.rings.resume x hx).1
    · exact carried_of_off (h.phases.early hp).1 (h.phases.early hp).2
    · exact nomatch hsettled.symm.trans (h.ledger.clients c hc hr)
  · rename_i hp
    split at hst <;> cases hst
    rename_i hsum
    exact h.settle rfl (by rw [hp]; simp) fun x =>
      h.tally.counted hp x (round_eq_zero_of_sum h.tally.nonneg hsum.1 hsum.2 x)
  · rename_i hp
    cases hst
    exact h.settle rfl (by rw [hp]; simp) (h.tally.done (by rw [hp]; rfl))
  · rename_i hp
    split at hst <;> cases hst
    exact h.settle rfl (by rw [hp]; simp) (h.tally.done (by rw [hp]; rfl))
  · cases hst

theorem Inv.next (h : Inv S s) {l : Label Shard Replica} (hok : s.Drains S l)
    (hst : s.next S l = some s') : Inv S s' := by
  cases l with
  | issue e req =>
    simp only [Draining.next] at hst
    split at hst <;> cases hst
    exact ⟨h.rings, h.phases, h.tally, h.ledger⟩
  | serve i applied =>
    obtain ⟨t, ht, rfl⟩ := Option.map_eq_some_iff.1 hst
    cases applied with
    | false => exact ⟨h.rings, h.phases, h.tally, h.ledger⟩
    | true => exact h.serve (hok t ht)
  | pause x answered =>
    simp only [Draining.next] at hst
    split at hst <;> cases hst
    exact ⟨h.rings, ⟨h.phases.cases, h.phases.early, nofun⟩, h.tally, h.ledger⟩
  | poll r answered =>
    simp only [Draining.next] at hst
    split at hst <;> cases hst
    rename_i hp
    exact h.poll hp.1 hok
  | start r =>
    simp only [Draining.next] at hst
    split at hst <;> cases hst
    rename_i hp
    exact h.start hp r
  | move l =>
    obtain ⟨m, hm, rfl⟩ := Option.map_eq_some_iff.1 hst
    exact h.move hok hm
  | reload r fresh =>
    simp only [Draining.next] at hst
    split at hst <;> cases hst
    rename_i hp
    rw [show fresh = true from hok]
    exact h.reload hp r
  | resume x =>
    simp only [Draining.next] at hst
    split at hst <;> cases hst
    rename_i hp
    exact h.resume hp.1 hp.2
  | reconcile => cases hst; exact ⟨h.rings, h.phases, h.tally.reset, h.ledger⟩
  | advance => exact h.advance hst

/-- **The redistribution is over when the controller says so**, in every run whose steps all drain
the shards. -/
theorem over_of_drains (S : Plan Shard Replica)
    (h : (machine S).ReachedBy (Drains S) (opened S.toScale) s) : s.Over S.toScale :=
  (h.invariant (I := Inv S) (inv_opened S) fun _ _ _ hi hok hst => hi.next hok hst).over

end

/-- A client writes a key, which is moved, and writes it again after the resume. -/
theorem over_of_drains_move :
    ∃ s, (machine Plan.moveAll).ReachedBy (Drains Plan.moveAll) (opened Plan.moveAll.toScale) s ∧
      s.phase = .normal ∧ (s.committed true).lookup "a" = some "2" ∧
      s.Over Plan.moveAll.toScale := by
  obtain ⟨s, hs, hp, hget⟩ : ∃ s,
      (machine Plan.moveAll).ReachedBy (Drains Plan.moveAll) (opened Plan.moveAll.toScale) s ∧
      s.phase = .normal ∧ (s.committed true).lookup "a" = some "2" :=
    ⟨_, .head (l := .issue false (.put "a" "1" false)) (.inl rfl) rfl <|
      .head (l := .serve 0 true) (fun _ _ => .inl rfl) rfl <|
      .head (l := .move (.apply false)) trivial rfl <|
      .head (l := .pause false true) trivial rfl <|
      .head (l := .pause true true) trivial rfl <|
      .head (l := .advance) trivial rfl <|
      .head (l := .poll false true) ⟨by decide, fun h => absurd h (by decide)⟩ rfl <|
      .head (l := .move (.read false "a"))
        ⟨⟨rfl, rfl⟩, fun _ _ hne hhome => absurd hhome hne⟩ rfl <|
      .head (l := .move (.send false .ok)) (by simp [Drains, Prompt]) rfl <|
      .head (l := .move (.purge false .ok)) (by simp [Drains, Prompt]) rfl <|
      .head (l := .move (.apply false)) trivial rfl <|
      .head (l := .move (.apply true)) trivial rfl <|
      .head (l := .reconcile) trivial rfl <|
      .head (l := .poll false true) ⟨by decide, fun _ => ⟨rfl, rfl⟩⟩ rfl <|
      .head (l := .poll true true) ⟨by decide, fun _ => ⟨rfl, rfl⟩⟩ rfl <|
      .head (l := .advance) trivial rfl <|
      .head (l := .advance) trivial rfl <|
      .head (l := .reload false true) rfl rfl <|
      .head (l := .reload true true) rfl rfl <|
      .head (l := .resume false) trivial rfl <|
      .head (l := .resume true) trivial rfl <|
      .head (l := .advance) trivial rfl <|
      .head (l := .issue false (.put "a" "2" false)) (.inr rfl) rfl <|
      .head (l := .serve 0 true) (fun _ ht => by cases ht; exact .inr rfl) rfl <| .start, rfl, rfl⟩
  exact ⟨s, hs, hp, hget, over_of_drains Plan.moveAll hs⟩

/-- **A redistribution `Put` overwrites a client's write in phase `Normal`.**  The first `Put` of
the key times out at its sender and is delayed; the goroutine sends the key again and deletes it,
both shards answer 0, and the delayed `Put` arrives after the client has written the key again. -/
theorem not_over :
    ∃ s, (machine Plan.moveAll).ReachedBy Paused (opened Plan.moveAll.toScale) s ∧
      s.phase = .normal ∧ .client true true (.put "a" "2" false) ∈ s.history ∧
      (s.committed true).lookup "a" = some "1" ∧ ¬ s.Over Plan.moveAll.toScale := by
  refine ⟨_, .head (l := .issue false (.put "a" "1" false)) (.inl rfl) rfl <|
    .head (l := .serve 0 true) trivial rfl <|
    .head (l := .move (.apply false)) trivial rfl <|
    .head (l := .pause false true) trivial rfl <|
    .head (l := .pause true true) trivial rfl <|
    .head (l := .advance) trivial rfl <|
    .head (l := .poll false true) trivial rfl <|
    .head (l := .move (.read false "a")) trivial rfl <|
    .head (l := .move (.send false .lost)) trivial rfl <|
    .head (l := .move (.read false "a")) trivial rfl <|
    .head (l := .move (.send false .ok)) trivial rfl <|
    .head (l := .move (.purge false .ok)) trivial rfl <|
    .head (l := .move (.apply false)) trivial rfl <|
    .head (l := .reconcile) trivial rfl <|
    .head (l := .poll false true) trivial rfl <|
    .head (l := .poll true true) trivial rfl <|
    .head (l := .advance) trivial rfl <|
    .head (l := .advance) trivial rfl <|
    .head (l := .reload false true) trivial rfl <|
    .head (l := .reload true true) trivial rfl <|
    .head (l := .resume false) trivial rfl <|
    .head (l := .resume true) trivial rfl <|
    .head (l := .advance) trivial rfl <|
    .head (l := .issue false (.put "a" "2" false)) (.inr rfl) rfl <|
    .head (l := .serve 0 true) trivial rfl <|
    .head (l := .move (.settle 0)) trivial rfl .start, rfl, ?_, rfl, ?_⟩
  · exact .tail _ (.tail _ (.tail _ (.head _)))
  · intro h
    exact h.put true (.set "a" "1") (.tail _ (.tail _ (.tail _ (.tail _ (.head _))))) rfl

end Draining

end ShardedKvs
