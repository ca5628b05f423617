import ShardedKvs.Replica.Basic
import ShardedKvs.Scale.Basic

/-!
# Moving keys out of a replica's own store

`RedistributeKeys` runs in a replica process, and everything it looks at is in that process: the
keys, the values and the count come from its own `KVStore`, whatever the committed log of its shard
says, and it does not ask whether the replica is the leader.  Only its `Put`s and `Delete`s go
through Raft.  A call that ends with an error may still take effect later: the `Put` may be delayed
in the network or in the handler, and an entry that Raft gave up on may still be committed.

* `Calls` : the replica processes, and the calls that may still take effect.
* `Movers` : the same with one goroutine for each process.
* `Movers.step` : one step of Raft or of a goroutine.
* `Movers.commits` : the entry that a step commits.
* `Movers.stepped_of_step` : **what a step can do**.
* `Movers.Orderly` : goroutines and delayed calls only carry keys away from their old owner.
-/

namespace ShardedKvs

/-- The replica processes while calls are under way. -/
structure Calls (Shard Replica : Type*) extends Replicas Shard Replica where
  /-- The calls whose caller saw an error, or died, and that may still take effect. -/
  late : List (Shard × KVFSMLogEntry)

/-- The replica processes while keys are moved. -/
structure Movers (Shard Replica : Type*) extends Calls Shard Replica where
  /-- The ring `ch` of each process. -/
  ch : Replica → String → Shard
  loop : Replica → Loop

namespace Calls

variable {Shard Replica : Type*} [DecidableEq Shard]

/-- A call ends: a `lost` one may take effect at any later time, or never. -/
def deliver (c : Calls Shard Replica) (out : Outcome) (x : Shard) (e : KVFSMLogEntry) :
    Calls Shard Replica :=
  match out with
  | .ok => { c with toReplicas := c.toReplicas.append x e }
  | .failed => c
  | .lost => { c with late := c.late ++ [(x, e)] }

/-- A late call takes effect. -/
def settle (c : Calls Shard Replica) (i : ℕ) : Option (Calls Shard Replica) :=
  c.late[i]?.map fun p =>
    { c with toReplicas := c.toReplicas.append p.1 p.2, late := c.late.eraseIdx i }

theorem settle_eq_some {c c' : Calls Shard Replica} {i : ℕ} (h : c.settle i = some c') :
    ∃ p, c.late[i]? = some p ∧
      c' = { c with toReplicas := c.toReplicas.append p.1 p.2, late := c.late.eraseIdx i } := by
  obtain ⟨p, hp, rfl⟩ := Option.map_eq_some_iff.1 h
  exact ⟨p, hp, rfl⟩

end Calls

/-- The steps of Raft and of the goroutines. -/
inductive MoveLabel (Replica : Type*) where
  /-- The state machine of `r` applies the next committed entry. -/
  | apply (r : Replica)
  | restore (r : Replica) (snap : KVFSMSnapshot) (index : ℕ)
  | restart (r : Replica)
  /-- `kvStore.Get` of the next key. -/
  | read (r : Replica) (key : String)
  /-- The redistribution `Put` ends. -/
  | send (r : Replica) (out : Outcome)
  /-- `kvStore.Delete` ends. -/
  | purge (r : Replica) (out : Outcome)
  /-- The goroutine ends, or its process does, while a `Put` is under way or not. -/
  | stop (r : Replica) (underWay : Bool)
  /-- A late call takes effect. -/
  | settle (i : ℕ)

namespace Movers

variable {Shard Replica : Type*}

/-- Freshly opened processes on the old ring. -/
def opened (S : Scale Shard Replica) : Movers Shard Replica where
  toReplicas := Replicas.opened Shard Replica
  late := []
  ch _ := S.old
  loop _ := .off

variable [DecidableEq Shard] [DecidableEq Replica]

/-- The goroutine of `r` goes on. -/
def goto (s : Movers Shard Replica) (r : Replica) (l : Loop) : Movers Shard Replica :=
  { s with loop := Function.update s.loop r l }

/-- A call of a goroutine ends. -/
def deliver (s : Movers Shard Replica) (out : Outcome) (x : Shard) (e : KVFSMLogEntry) :
    Movers Shard Replica :=
  { s with toCalls := s.toCalls.deliver out x e }

variable (S : Scale Shard Replica)

/-- The test of `RedistributeKeys`: `r` has to move the key away. -/
def mustMove (s : Movers Shard Replica) (r : Replica) (k : String) : Bool :=
  S.mustMove (s.ch r) r k

/-- The count of `replicaRpcServer.RedistributeKeys` on `r`, over the keys in its own `KVStore`. -/
def pendingKeys (s : Movers Shard Replica) (r : Replica) : ℕ :=
  ((s.node r).keys.filter fun k => s.mustMove S r k).card

/-- `PendingKeys: int32(pendingKeys)`, as the controller reads it. -/
def answer (s : Movers Shard Replica) (r : Replica) : ℤ := (Int32.ofNat (s.pendingKeys S r)).toInt

/-- `go RedistributeKeys()`: at most one goroutine per process. -/
def start (s : Movers Shard Replica) (r : Replica) : Movers Shard Replica :=
  if s.loop r = .off then s.goto r .idle else s

/-- `kvStore.Get` of the next key; a key that is gone is passed over. -/
def read (s : Movers Shard Replica) (r : Replica) (k : String) : Option (Movers Shard Replica) :=
  if s.loop r = .idle ∧ s.mustMove S r k = true then
    match (s.node r).get k with
    | .ok v => some (s.goto r (.got k v))
    | .error _ => some s
  else none

/-- The `Put` to the new owner, with `IsRedistribution: true`; no handler rejects it. -/
def send (s : Movers Shard Replica) (r : Replica) (out : Outcome) :
    Option (Movers Shard Replica) :=
  match s.loop r with
  | .got k v =>
    -- after an error the loop goes on with the next key
    some ((s.deliver out (S.new k) (.set k v)).goto r (if out = .ok then .sent k else .idle))
  | _ => none

/-- `kvStore.Delete` after a `Put` that succeeded. -/
def purge (s : Movers Shard Replica) (r : Replica) (out : Outcome) :
    Option (Movers Shard Replica) :=
  match s.loop r with
  | .sent k => some ((s.deliver out (S.home r) (.delete k)).goto r .idle)
  | _ => none

/-- The goroutine ends; a `Put` that is under way does not end with it. -/
def stop (s : Movers Shard Replica) (r : Replica) (underWay : Bool) : Movers Shard Replica :=
  match s.loop r with
  | .got k v => (if underWay then s.deliver .lost (S.new k) (.set k v) else s).goto r .off
  | _ => s.goto r .off

/-- A late call takes effect. -/
def settle (s : Movers Shard Replica) (i : ℕ) : Option (Movers Shard Replica) :=
  (s.toCalls.settle i).map fun c => { s with toCalls := c }

/-- One step of Raft or of a goroutine. -/
def step (s : Movers Shard Replica) : MoveLabel Replica → Option (Movers Shard Replica)
  | .apply r => (s.toReplicas.apply S.home r).map fun d => { s with toReplicas := d }
  | .restore r snap index => some { s with toReplicas := s.toReplicas.restore r snap index }
  | .restart r =>
    some { s.goto r .off with toReplicas := s.toReplicas.setNode r Node.opened 0 }
  | .read r k => s.read S r k
  | .send r out => s.send S r out
  | .purge r out => s.purge S r out
  | .stop r underWay => some (s.stop S r underWay)
  | .settle i => s.settle i

/-- The entry that a step commits, with its shard. -/
def commits (s : Movers Shard Replica) : MoveLabel Replica → Option (Shard × KVFSMLogEntry)
  | .send r .ok => match s.loop r with
    | .got k v => some (S.new k, .set k v)
    | _ => none
  | .purge r .ok => match s.loop r with
    | .sent k => some (S.home r, .delete k)
    | _ => none
  | .settle i => s.late[i]?
  | _ => none

/-! ### What a step can do -/

variable {S} {s s' : Movers Shard Replica} {l : MoveLabel Replica}

omit [DecidableEq Replica] in
theorem mustMove_iff (r : Replica) (k : String) :
    s.mustMove S r k = true ↔ s.ch r k ≠ S.new k ∧ s.ch r k = S.home r := by
  simp [mustMove, Scale.mustMove]

omit [DecidableEq Shard] in
theorem loop_goto (r r' : Replica) (p : Loop) :
    (s.goto r p).loop r' = if r' = r then p else s.loop r' := by
  by_cases hr : r' = r
  · subst hr
    simp only [goto, Function.update_self, if_true]
  · simp only [goto, Function.update_of_ne hr, if_neg hr]

omit [DecidableEq Shard] in
/-- A goroutine that goes on to a point without a key leaves the others where they are. -/
theorem eq_of_goto {r r' : Replica} {p q : Loop} (hpq : p ≠ q)
    (h : (s.goto r p).loop r' = q) : s.loop r' = q := by
  rw [loop_goto] at h
  split at h
  · exact absurd h hpq
  · exact h

omit [DecidableEq Shard] in
theorem off_goto {r r' : Replica} {p : Loop} (hp : s.loop r ≠ .off ∨ p = .off)
    (h : s.loop r' = .off) : (s.goto r p).loop r' = .off := by
  rw [loop_goto]
  split
  · rename_i hr
    subst hr
    exact hp.resolve_left fun hne => hne h
  · exact h

omit [DecidableEq Replica] in
theorem loop_deliver (out : Outcome) (x : Shard) (e : KVFSMLogEntry) :
    (s.deliver out x e).loop = s.loop := rfl

omit [DecidableEq Replica] in
theorem late_deliver {out : Outcome} {x : Shard} {e : KVFSMLogEntry} {p : Shard × KVFSMLogEntry}
    (hp : p ∈ (s.deliver out x e).late) : p ∈ s.late ∨ p = (x, e) := by
  cases out with
  | ok | failed => exact .inl hp
  | lost => exact (List.mem_append.1 hp).imp_right List.mem_singleton.1

omit [DecidableEq Replica] in
theorem replays_deliver (h : s.Replays S.home) (out : Outcome) (x : Shard) (e : KVFSMLogEntry) :
    (s.deliver out x e).Replays S.home := by
  cases out with
  | ok => exact h.append x e
  | failed | lost => exact h

omit [DecidableEq Shard] in
@[simp] theorem toCalls_start (s : Movers Shard Replica) (r : Replica) :
    (s.start r).toCalls = s.toCalls := by
  unfold start; split <;> rfl

omit [DecidableEq Shard] in
@[simp] theorem ch_start (s : Movers Shard Replica) (r : Replica) : (s.start r).ch = s.ch := by
  unfold start; split <;> rfl

omit [DecidableEq Shard] in
theorem eq_of_start {r r' : Replica} {p : Loop} (hp : p ≠ .idle)
    (h : (s.start r).loop r' = p) : s.loop r' = p := by
  unfold start at h
  split at h
  · exact eq_of_goto hp.symm h
  · exact h

/-- Everything that a step can do: the rings stay, the logs grow by the entry that the step commits,
no goroutine starts, a goroutine gets hold of a key only by reading it from its own store, and a
call becomes late only when a goroutine makes it. -/
structure Stepped (S : Scale Shard Replica) (l : MoveLabel Replica) (s s' : Movers Shard Replica) :
    Prop where
  ch : s'.ch = s.ch
  log : s'.log = match s.commits S l with
    | none => s.log
    | some (x, e) => (s.toReplicas.append x e).log
  off : ∀ {r}, s.loop r = .off → s'.loop r = .off
  got : ∀ {r k v}, s'.loop r = .got k v → s.loop r = .got k v ∨
    l = .read r k ∧ s.mustMove S r k = true ∧ (s.node r).get k = .ok v
  sent : ∀ {r k}, s'.loop r = .sent k → s.loop r = .sent k ∨ ∃ v, s.loop r = .got k v
  late : ∀ {p}, p ∈ s'.late → p ∈ s.late ∨
    (∃ r k v, s.loop r = .got k v ∧ p = (S.new k, .set k v)) ∨
    ∃ r k, s.loop r = .sent k ∧ p = (S.home r, .delete k)
  replays : s.Replays S.home → s'.Replays S.home

omit [DecidableEq Replica] in
/-- A step that only changes the processes. -/
theorem stepped_of_log_eq {d : Replicas Shard Replica} (hl : s.commits S l = none)
    (hlog : d.log = s.log) (hreplays : s.Replays S.home → d.Replays S.home) :
    Stepped S l s { s with toReplicas := d } where
  ch := rfl
  log := by rw [hl]; exact hlog
  off := id
  got := .inl
  sent := .inl
  late := .inl
  replays := hreplays

theorem stepped_off (hl : s.commits S l = none) (r : Replica) :
    Stepped S l s (s.goto r .off) where
  ch := rfl
  log := by rw [hl]; rfl
  off hr := off_goto (.inr rfl) hr
  got hr := .inl (eq_of_goto (by simp) hr)
  sent hr := .inl (eq_of_goto (by simp) hr)
  late := .inl
  replays hs := hs

omit [DecidableEq Replica] in
theorem stepped_self (hl : s.commits S l = none) : Stepped S l s s where
  ch := rfl
  log := by rw [hl]
  off := id
  got := .inl
  sent := .inl
  late := .inl
  replays hs := hs

theorem stepped_read {r : Replica} {k : String} (h : s.read S r k = some s') :
    Stepped S (.read r k) s s' := by
  unfold read at h
  split at h
  · rename_i hmust
    split at h
    · rename_i v hget
      cases h
      refine ⟨rfl, rfl, off_goto (.inl (by rw [hmust.1]; simp)), fun {r' k' v'} hr => ?_,
        fun hr => .inl (eq_of_goto (by simp) hr), .inl, id⟩
      rw [loop_goto] at hr
      split at hr
      · rename_i hrr
        cases hr
        subst hrr
        exact .inr ⟨rfl, hmust.2, hget⟩
      · exact .inl hr
    · cases h
      exact stepped_self rfl
  · cases h

theorem stepped_send {r : Replica} {out : Outcome} (h : s.send S r out = some s') :
    Stepped S (.send r out) s s' := by
  unfold send at h
  split at h
  · rename_i k v hloop
    cases h
    refine ⟨rfl, ?_, fun hr => ?_, fun hr => ?_, fun {r' k'} hr => ?_, fun hp => ?_,
      fun hs => replays_deliver hs _ _ _⟩
    · cases out with
      | ok => simp only [commits, hloop]; rfl
      | failed | lost => rfl
    · refine off_goto (.inl ?_) ?_ <;> rw [loop_deliver]
      · rw [hloop]; simp
      · exact hr
    · rw [← loop_deliver (s := s)]
      exact .inl (eq_of_goto (by split <;> simp) hr)
    · rw [loop_goto, loop_deliver] at hr
      split at hr
      · rename_i hrr
        subst hrr
        split at hr <;> cases hr
        exact .inr ⟨v, hloop⟩
      · exact .inl hr
    · rcases late_deliver hp with hp | hp
      · exact .inl hp
      · exact .inr (.inl ⟨r, k, v, hloop, hp⟩)
  · cases h

theorem stepped_purge {r : Replica} {out : Outcome} (h : s.purge S r out = some s') :
    Stepped S (.purge r out) s s' := by
  unfold purge at h
  split at h
  · rename_i k hloop
    cases h
    refine ⟨rfl, ?_, fun hr => ?_, fun hr => ?_, fun hr => ?_, fun hp => ?_,
      fun hs => replays_deliver hs _ _ _⟩
    · cases out with
      | ok => simp only [commits, hloop]; rfl
      | failed | lost => rfl
    · refine off_goto (.inl ?_) ?_ <;> rw [loop_deliver]
      · rw [hloop]; simp
      · exact hr
    · rw [← loop_deliver (s := s)]
      exact .inl (eq_of_goto (by simp) hr)
    · rw [← loop_deliver (s := s)]
      exact .inl (eq_of_goto (by simp) hr)
    · rcases late_deliver hp with hp | hp
      · exact .inl hp
      · exact .inr (.inr ⟨r, k, hloop, hp⟩)
  · cases h

theorem stepped_stop (r : Replica) (underWay : Bool) :
    Stepped S (.stop r underWay) s (s.stop S r underWay) := by
  unfold stop
  split
  · rename_i k v hloop
    cases underWay with
    | false => exact stepped_off rfl r
    | true =>
      refine ⟨rfl, rfl, off_goto (.inr rfl), fun hr => .inl (eq_of_goto (by simp) hr),
        fun hr => .inl (eq_of_goto (by simp) hr), fun hp => ?_, id⟩
      rcases List.mem_append.1 hp with hp | hp
      · exact .inl hp
      · exact .inr (.inl ⟨r, k, v, hloop, List.mem_singleton.1 hp⟩)
  · exact stepped_off rfl r

/-- **What a step can do.** -/
theorem stepped_of_step (h : s.step S l = some s') : Stepped S l s s' := by
  cases l with
  | apply r =>
    obtain ⟨d, hd, rfl⟩ := Option.map_eq_some_iff.1 h
    exact stepped_of_log_eq rfl (Replicas.log_apply hd) fun hs => hs.apply hd
  | restore r snap index =>
    cases h
    exact stepped_of_log_eq rfl rfl fun hs => hs.restore r snap index
  | restart r =>
    cases h
    obtain ⟨hch, hlog, hoff, hgot, hsent, hlate, -⟩ :=
      stepped_off (S := S) (s := s) (l := .restart r) rfl r
    exact ⟨hch, hlog, hoff, hgot, hsent, hlate,
      fun hs => hs.setNode fun _ => ⟨Node.shared_opened, Nat.zero_le _, rfl⟩⟩
  | read r k => exact stepped_read h
  | send r out => exact stepped_send h
  | purge r out => exact stepped_purge h
  | stop r underWay => cases h; exact stepped_stop r underWay
  | settle i =>
    obtain ⟨c, hc, rfl⟩ := Option.map_eq_some_iff.1 h
    obtain ⟨p, hp, rfl⟩ := Calls.settle_eq_some hc
    refine ⟨rfl, ?_, id, .inl, .inl, fun hq => .inl (List.mem_of_mem_eraseIdx hq),
      fun hs => hs.append p.1 p.2⟩
    simp only [commits, hp]

omit [DecidableEq Replica] in
theorem Stepped.lookup_committed (h : Stepped S l s s') (y : Shard) (k : String) :
    (s'.committed y).lookup k = (s.committed y).lookup k ∨
      ∃ e, s.commits S l = some (y, e) ∧ e.pickKey k = some ((s'.committed y).lookup k) := by
  simp only [Replicas.committed, h.log]
  cases hc : s.commits S l with
  | none => exact .inl rfl
  | some p =>
    obtain ⟨x, e⟩ := p
    show ((s.toReplicas.append x e).committed y).lookup k = _ ∨ ∃ e', _ ∧ _ =
      some (((s.toReplicas.append x e).committed y).lookup k)
    rw [Replicas.lookup_committed_append]
    split_ifs with hy
    · subst hy
      cases hpick : e.pickKey k with
      | none => exact .inl rfl
      | some w => exact .inr ⟨e, rfl, hpick⟩
    · exact .inl rfl

omit [DecidableEq Shard] [DecidableEq Replica] in
/-- The goroutine of `r` stands between the `Get` of the key and the end of its `Delete`. -/
def Holds (s : Movers Shard Replica) (r : Replica) (k : String) : Prop :=
  (∃ v, s.loop r = .got k v) ∨ s.loop r = .sent k

omit [DecidableEq Replica] in
theorem Stepped.holds (h : Stepped S l s s') {r : Replica} {k : String} (hr : s'.Holds r k) :
    s.Holds r k ∨ l = .read r k ∧ ∃ v, (s.node r).get k = .ok v := by
  rcases hr with ⟨v, hr⟩ | hr
  · rcases h.got hr with hr | ⟨hl, -, hget⟩
    · exact .inl (.inl ⟨v, hr⟩)
    · exact .inr ⟨hl, v, hget⟩
  · exact .inl ((h.sent hr).elim .inr .inl)

/-! ### Goroutines carry keys away from their old owner -/

omit [DecidableEq Shard] [DecidableEq Replica] in
variable (S) in
/-- The entry, at the shard `x`, carries a key away from its old owner: it is a `Put` at the new
one, or a deletion at the old one. -/
def Carries (x : Shard) (e : KVFSMLogEntry) : Prop :=
  (∃ k v, e = .set k v ∧ x = S.new k ∧ S.old k ≠ S.new k) ∨
    ∃ k, e = .delete k ∧ x = S.old k ∧ S.old k ≠ S.new k

/-- Every goroutine and every late call carries a key away from its old owner. -/
structure Orderly (S : Scale Shard Replica) (s : Movers Shard Replica) : Prop where
  ring : ∀ r, s.ch r = S.old ∨ s.ch r = S.new
  replays : s.Replays S.home
  got : ∀ r k v, s.loop r = .got k v → S.old k = S.home r ∧ S.new k ≠ S.home r
  sent : ∀ r k, s.loop r = .sent k → S.old k = S.home r ∧ S.new k ≠ S.home r
  late : ∀ x e, (x, e) ∈ s.late → Carries S x e

omit [DecidableEq Shard] [DecidableEq Replica] in
theorem orderly_opened (S : Scale Shard Replica) : (opened S).Orderly S where
  ring _ := .inl rfl
  replays := Replicas.replays_opened S.home
  got _ _ _ hr := nomatch hr
  sent _ _ hr := nomatch hr
  late _ _ hp := nomatch hp

omit [DecidableEq Replica] in
/-- A process on the new ring has nothing to move; one on the old ring moves what leaves its
shard. -/
theorem Orderly.leaves (h : s.Orderly S) {r : Replica} {k : String}
    (hmust : s.mustMove S r k = true) :
    s.ch r = S.old ∧ S.old k = S.home r ∧ S.new k ≠ S.home r := by
  obtain ⟨hne, heq⟩ := (mustMove_iff r k).1 hmust
  rcases h.ring r with hr | hr
  · rw [hr] at hne heq
    exact ⟨hr, heq, fun hn => hne (heq.trans hn.symm)⟩
  · rw [hr] at hne
    exact absurd rfl hne

theorem Orderly.step (h : s.Orderly S) (hst : s.step S l = some s') : s'.Orderly S := by
  have hs := stepped_of_step hst
  refine ⟨fun r => ?_, hs.replays h.replays, fun r k v hr => ?_, fun r k hr => ?_,
    fun x e hp => ?_⟩
  · rw [hs.ch]
    exact h.ring r
  · rcases hs.got hr with hr | ⟨-, hmust, -⟩
    · exact h.got r k v hr
    · exact (h.leaves hmust).2
  · rcases hs.sent hr with hr | ⟨v, hr⟩
    · exact h.sent r k hr
    · exact h.got r k v hr
  · rcases hs.late hp with hp | ⟨r, k, v, hr, hp⟩ | ⟨r, k, hr, hp⟩
    · exact h.late x e hp
    · obtain ⟨hold, hnew⟩ := h.got r k v hr
      cases hp
      exact .inl ⟨k, v, rfl, rfl, fun he => hnew (he.symm.trans hold)⟩
    · obtain ⟨hold, hnew⟩ := h.sent r k hr
      cases hp
      exact .inr ⟨k, rfl, hold.symm, fun he => hnew (he.symm.trans hold)⟩

omit [DecidableEq Replica] in
/-- When a current replica on the old ring counts nothing, no committed key has to leave its
shard. -/
theorem Orderly.lookup_of_pendingKeys (h : s.Orderly S) {r : Replica} (hring : s.ch r = S.old)
    (hcur : s.Current S.home r) (hp : s.pendingKeys S r = 0) {k : String}
    (hold : S.old k = S.home r) (hnew : S.new k ≠ S.home r) :
    (s.committed (S.home r)).lookup k = none := by
  rw [pendingKeys, Finset.card_eq_zero, Finset.filter_eq_empty_iff,
    h.replays.keys_current hcur] at hp
  by_contra hk
  refine hp (Finmap.mem_keys.2 (Finmap.lookup_isSome.1 (Option.isSome_iff_ne_none.2 hk))) ?_
  rw [mustMove_iff, hring]
  exact ⟨fun he => hnew (he.symm.trans hold), hold⟩

omit [DecidableEq Shard] [DecidableEq Replica] in
/-- A step commits a `Put` at a new owner, which a goroutine holds or which is late, or a deletion
at an old owner. -/
theorem Orderly.commits (h : s.Orderly S) {x : Shard} {e : KVFSMLogEntry}
    (hc : s.commits S l = some (x, e)) :
    (∃ k v, e = .set k v ∧ x = S.new k ∧ S.old k ≠ S.new k ∧
      ((∃ r, s.loop r = .got k v) ∨ (x, e) ∈ s.late)) ∨
    ∃ k, e = .delete k ∧ x = S.old k ∧ S.old k ≠ S.new k := by
  unfold Movers.commits at hc
  split at hc
  · split at hc
    · rename_i r _ k v hr
      cases hc
      obtain ⟨hold, hnew⟩ := h.got r k v hr
      exact .inl ⟨k, v, rfl, rfl, fun he => hnew (he.symm.trans hold), .inl ⟨r, hr⟩⟩
    · cases hc
  · split at hc
    · rename_i r _ k hr
      cases hc
      obtain ⟨hold, hnew⟩ := h.sent r k hr
      exact .inr ⟨k, rfl, hold.symm, fun he => hnew (he.symm.trans hold)⟩
    · cases hc
  · have hmem := List.mem_of_getElem? hc
    rcases h.late x e hmem with ⟨k, v, he, hx, hne⟩ | hdel
    · exact .inl ⟨k, v, he, hx, hne, .inr hmem⟩
    · exact .inr hdel
  · cases hc

omit [DecidableEq Shard] in
theorem ring_reload (h : ∀ r, s.ch r = S.old ∨ s.ch r = S.new) (r r' : Replica) :
    Function.update s.ch r S.new r' = S.old ∨ Function.update s.ch r S.new r' = S.new := by
  by_cases hr : r' = r
  · rw [hr]
    exact .inr (Function.update_self ..)
  · rw [Function.update_of_ne hr]
    exact h r'

omit [DecidableEq Shard] in
theorem Orderly.start (h : s.Orderly S) (r : Replica) : (s.start r).Orderly S where
  ring := by rw [ch_start]; exact h.ring
  replays := by rw [toCalls_start]; exact h.replays
  got r' k v hr := h.got r' k v (eq_of_start (by simp) hr)
  sent r' k hr := h.sent r' k (eq_of_start (by simp) hr)
  late := by rw [toCalls_start]; exact h.late

omit [DecidableEq Replica] in
theorem Orderly.append (h : s.Orderly S) (x : Shard) (e : KVFSMLogEntry) :
    Orderly S { s with toReplicas := s.toReplicas.append x e } :=
  ⟨h.ring, h.replays.append x e, h.got, h.sent, h.late⟩

end Movers

end ShardedKvs
