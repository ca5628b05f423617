import ShardedKvs.Replica.Move

/-!
# What a count of zero says about the committed log

The controller polls the shards while replicas lag behind, win and lose elections, restore snapshots
and restart.  The handler that counts and the goroutine that moves do not ask Raft whether the
replica is up to date.  Every count and every value that is sent is recorded together with what the
committed log said at that moment.

* `Report` : what a replica said, and what was committed then.
* `Polling.machine` : every history of Raft, of the polls and of the goroutines.
* `Polling.faithful_of_sound` : **counts and values speak for the committed log** when they are
  taken on current replicas, and no entry for a key is committed at the shard while a goroutine is
  about to send the key.
* `Polling.not_faithful` : a replica that has not applied the log yet answers 0.
-/

namespace ShardedKvs

/-- What a replica of the shard `x` said, with what the committed log of the shard said then. -/
inductive Report (Shard : Type*) where
  /-- The answer of `RedistributeKeys`, and the keys that still had to leave. -/
  | count (x : Shard) (answer : ℤ) (left : Finset String)
  /-- A redistribution `Put`, and the committed value of its key. -/
  | sent (x : Shard) (key value : String) (committed : Option String)

/-- The report agrees with the committed log. -/
def Report.Faithful {Shard : Type*} : Report Shard → Prop
  | .count _ answer left => answer = 0 → left = ∅
  | .sent _ _ value committed => committed = some value

/-- The replica processes while the controller polls them. -/
structure Polling (Shard Replica : Type*) extends Movers Shard Replica where
  /-- The redistribution has begun: clients do not write any more. -/
  begun : Bool
  reports : List (Report Shard)

namespace Polling

variable {Shard Replica : Type*}

/-- The steps of the clients, of the controller, and of the processes. -/
inductive Label (Shard Replica : Type*) where
  /-- A client write is committed at a shard. -/
  | write (x : Shard) (req : Request)
  /-- `replicaRpcServer.RedistributeKeys` on `r`. -/
  | poll (r : Replica)
  | move (l : MoveLabel Replica)

/-- Freshly opened processes on the old ring. -/
def opened (S : Scale Shard Replica) : Polling Shard Replica where
  toMovers := Movers.opened S
  begun := false
  reports := []

section Steps

variable [DecidableEq Shard] (S : Scale Shard Replica)

/-- The committed keys that have to leave the shard. -/
def leaving (d : Replicas Shard Replica) (x : Shard) : Finset String :=
  (d.committed x).keys.filter fun k => S.old k = x ∧ S.new k ≠ x

/-- The value that a step sends; a goroutine may also end while its `Put` is under way. -/
def reportOf (s : Movers Shard Replica) : MoveLabel Replica → List (Report Shard)
  | .send r _ | .stop r true => match s.loop r with
    | .got k v => [.sent (S.home r) k v ((s.committed (S.home r)).lookup k)]
    | _ => []
  | _ => []

variable [DecidableEq Replica]

/-- One step. -/
def next (s : Polling Shard Replica) : Label Shard Replica → Option (Polling Shard Replica)
  | .write x req =>
    if s.begun then none else some { s with toReplicas := s.toReplicas.append x req.entry }
  | .poll r =>
    some { s with
      toMovers := s.toMovers.start r
      begun := true
      reports := s.reports ++
        [.count (S.home r) (s.toMovers.answer S r) (leaving S s.toReplicas (S.home r))] }
  | .move l => (s.toMovers.step S l).map fun m =>
    { s with toMovers := m, reports := s.reports ++ reportOf S s.toMovers l }

/-- Every history of Raft, of the polls and of the goroutines. -/
def machine : Machine (Polling Shard Replica) (Label Shard Replica) := ⟨next S⟩

end Steps

section

variable [DecidableEq Shard] [DecidableEq Replica]

/-- The step relies on a current replica: a poll whose count does not wrap around, or a read; and it
commits no entry for a key that a goroutine of the shard is about to send. -/
def Sound (S : Scale Shard Replica) (s : Polling Shard Replica) : Label Shard Replica → Prop
  | .write _ _ => True
  | .poll r => s.Current S.home r ∧
      ¬ (0 < s.toMovers.pendingKeys S r ∧ 2 ^ 32 ∣ s.toMovers.pendingKeys S r)
  | .move l => (∀ r k, l = .read r k → s.Current S.home r) ∧
      ∀ x e, s.toMovers.commits S l = some (x, e) →
        ∀ r k v, S.home r = x → s.loop r = .got k v → e.pickKey k = none

variable {S : Scale Shard Replica} {s s' : Polling Shard Replica}

/-- A goroutine holds the committed value of its key, and nothing that was said is wrong. -/
structure Inv (S : Scale Shard Replica) (s : Polling Shard Replica) : Prop where
  orderly : s.toMovers.Orderly S
  ring : ∀ r, s.ch r = S.old
  idle : s.begun = false → ∀ r, s.loop r = .off
  got : ∀ r k v, s.loop r = .got k v → (s.committed (S.home r)).lookup k = some v
  faithful : ∀ rep ∈ s.reports, rep.Faithful

omit [DecidableEq Shard] [DecidableEq Replica] in
theorem inv_opened (S : Scale Shard Replica) : Inv S (opened S) where
  orderly := Movers.orderly_opened S
  ring _ := rfl
  idle _ _ := rfl
  got _ _ _ hr := nomatch hr
  faithful _ hrep := nomatch hrep

theorem Inv.write (h : Inv S s) {x : Shard} {req : Request}
    (hst : s.next S (.write x req) = some s') : Inv S s' := by
  simp only [next] at hst
  split at hst
  · cases hst
  · rename_i hbegun
    cases hst
    have hoff := h.idle (Bool.eq_false_iff.2 hbegun)
    refine ⟨h.orderly.append x req.entry, h.ring, h.idle, fun r k v hr => ?_, h.faithful⟩
    exact nomatch (hoff r).symm.trans hr

omit [DecidableEq Replica] in
/-- A current replica that counts nothing shows that nothing has to leave. -/
theorem Inv.leaving_eq_empty (h : Inv S s) {r : Replica} (hr : s.Current S.home r)
    (hp : s.toMovers.pendingKeys S r = 0) : leaving S s.toReplicas (S.home r) = ∅ := by
  rw [leaving, Finset.filter_eq_empty_iff]
  intro k hk hleave
  have hnone := h.orderly.lookup_of_pendingKeys (h.ring r) hr hp hleave.1 hleave.2
  exact Finmap.lookup_eq_none.1 hnone (Finmap.mem_keys.1 hk)

theorem Inv.poll (h : Inv S s) {r : Replica} (hok : s.Sound S (.poll r))
    (hst : s.next S (.poll r) = some s') : Inv S s' := by
  obtain ⟨hcur, hfits⟩ := hok
  cases hst
  refine ⟨h.orderly.start r, ?_, (fun hb => nomatch hb), fun r' k v hr => ?_, fun rep hrep => ?_⟩
  · rw [Movers.ch_start]
    exact h.ring
  · rw [Movers.toCalls_start]
    exact h.got r' k v (Movers.eq_of_start (by simp) hr)
  · rcases List.mem_append.1 hrep with hrep | hrep
    · exact h.faithful rep hrep
    · rw [List.mem_singleton.1 hrep]
      intro hzero
      exact h.leaving_eq_empty hcur (Fleet.eq_zero_of_toInt hzero hfits)

omit [DecidableEq Shard] [DecidableEq Replica] in
/-- A goroutine sends the value that it holds. -/
theorem Inv.reportOf (h : Inv S s) {l : MoveLabel Replica} (rep : Report Shard)
    (hrep : rep ∈ reportOf S s.toMovers l) : rep.Faithful := by
  unfold Polling.reportOf at hrep
  split at hrep
  · split at hrep
    · rename_i hr
      rw [List.mem_singleton.1 hrep]
      exact h.got _ _ _ hr
    · exact nomatch hrep
  · split at hrep
    · rename_i hr
      rw [List.mem_singleton.1 hrep]
      exact h.got _ _ _ hr
    · exact nomatch hrep
  · exact nomatch hrep

theorem Inv.move (h : Inv S s) {l : MoveLabel Replica} (hok : s.Sound S (.move l))
    (hst : s.next S (.move l) = some s') : Inv S s' := by
  obtain ⟨hread, hfree⟩ := hok
  obtain ⟨m, hm, rfl⟩ := Option.map_eq_some_iff.1 hst
  have hs := Movers.stepped_of_step hm
  refine ⟨h.orderly.step hm, fun r => ?_, fun hb r => hs.off (h.idle hb r), fun r k v hr => ?_,
    fun rep hrep => ?_⟩
  · show m.ch r = S.old
    rw [hs.ch]
    exact h.ring r
  · show (m.committed (S.home r)).lookup k = some v
    rcases hs.got hr with hr | ⟨hl, -, hget⟩
    · rcases hs.lookup_committed (S.home r) k with hk | ⟨e, hc, hpick⟩
      · rw [hk]
        exact h.got r k v hr
      · exact nomatch (hfree _ e hc r k v rfl hr).symm.trans hpick
    · -- a read commits nothing, and the replica is current
      rcases hs.lookup_committed (S.home r) k with hk | ⟨e, hc, -⟩
      · rw [hk]
        exact (h.orderly.replays.get_current (hread r k hl) k v).1 hget
      · rw [hl] at hc
        exact nomatch hc
  · rcases List.mem_append.1 hrep with hrep | hrep
    · exact h.faithful rep hrep
    · exact h.reportOf rep hrep

theorem Inv.next (h : Inv S s) {l : Label Shard Replica} (hok : s.Sound S l)
    (hst : s.next S l = some s') : Inv S s' := by
  cases l with
  | write x req => exact h.write hst
  | poll r => exact h.poll hok hst
  | move l => exact h.move hok hst

/-- **Counts and values speak for the committed log**, in every history of Raft, of the polls and of
the goroutines in which each poll and each read is made on a current replica, no count wraps around,
and no entry for a key is committed at a shard while one of its goroutines is about to send the
key: a count of 0 means that no committed key has to leave the shard, and every value that is sent
is the committed one. -/
theorem faithful_of_sound (S : Scale Shard Replica)
    (h : (machine S).ReachedBy (Sound S) (opened S) s) : ∀ rep ∈ s.reports, rep.Faithful :=
  (h.invariant (I := Inv S) (inv_opened S) fun _ _ _ hi hok hst => hi.next hok hst).faithful

end

/-- Two shards with two replicas each; every key moves from shard `false` to shard `true`. -/
def moveAll : Scale Bool (Bool × Bool) := ⟨fun _ => false, fun _ => true, Prod.fst⟩

/-- Replica 0 of shard `false` applies the entry, is polled, and moves the key. -/
theorem faithful_of_sound_move :
    ∃ s, (machine moveAll).ReachedBy (Sound moveAll) (opened moveAll) s ∧
      s.reports = [.count false 1 {"a"}, .sent false "a" "1" (some "1")] ∧
      ∀ rep ∈ s.reports, rep.Faithful := by
  obtain ⟨s, hs, hreports⟩ : ∃ s, (machine moveAll).ReachedBy (Sound moveAll) (opened moveAll) s ∧
      s.reports = [.count false 1 {"a"}, .sent false "a" "1" (some "1")] :=
    ⟨_, .head (l := .write false (.put "a" "1" false)) trivial rfl <|
      .head (l := .move (.apply (false, false))) ⟨nofun, nofun⟩ rfl <|
      .head (l := .poll (false, false)) ⟨⟨rfl, rfl⟩, by decide⟩ rfl <|
      .head (l := .move (.read (false, false) "a"))
        ⟨fun _ _ hl => (MoveLabel.read.inj hl).1 ▸ ⟨rfl, rfl⟩, nofun⟩ rfl <|
      .head (l := .move (.send (false, false) .lost)) ⟨nofun, nofun⟩ rfl <| .start, rfl⟩
  exact ⟨s, hs, hreports, faithful_of_sound moveAll hs⟩

/-- **A replica that lags behind answers 0**: a key is committed at its shard and has to leave. -/
theorem not_faithful :
    ∃ s, (machine moveAll).Reached (opened moveAll) s ∧ ∃ rep ∈ s.reports, ¬ rep.Faithful := by
  refine ⟨_, Machine.Reached.of_run
    [.write false (.put "a" "1" false), .poll (false, false)] rfl, _, List.mem_singleton_self _, ?_⟩
  intro h
  exact absurd (h rfl) (by decide)

end Polling

end ShardedKvs
