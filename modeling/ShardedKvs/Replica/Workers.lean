import Mathlib.Logic.Relation
import ShardedKvs.Flight.Basic
import ShardedKvs.Replica.Move

/-!
# The goroutines that move the keys

Every poll of the controller runs `go RedistributeKeys()`.  The goroutine returns at once when
`redistributingKeys` is set; otherwise it sets the flag, reads the configuration, ranges over
`kvStore.Keys()`, and resets the flag in a deferred function.  `Replica/Move.lean` has one loop for
each process; here every goroutine is there, with each access to `redistributingKeysMutex` and to
the flag, and any of them may be started, interrupted or killed at any point.  What a goroutine
reads is the `KVStore` of its own process, which lags behind the committed log by any distance.

* `redistributeKeys` : the body of the goroutine, and what Raft does meanwhile.
* `Workers.machine` : every interleaving of the goroutines of all processes with Raft.
* `Workers.one_loop` : **at most one goroutine of a process moves keys**, and the flag is set
  whenever one does.
* `Workers.refines_loops` : the goroutines **refine the one loop for each process**, so all that
  they ever commit carries keys away from their old owners.
-/

namespace ShardedKvs

/-- A range over `kvStore.Keys()`. -/
structure Scan where
  /-- The keys at the start of the range. -/
  due : Finset String
  /-- The keys that the range has produced. -/
  seen : Finset String
  /-- No call of the loop has failed. -/
  clean : Bool
  deriving DecidableEq

/-- Where `RedistributeKeys` is, once it has set `redistributingKeys`. -/
inductive Sweep where
  /-- Before `ReadConfig`. -/
  | config
  /-- Between two keys. -/
  | scan (c : Scan)
  /-- After `kvStore.Get`, before the `Put` to the new owner. -/
  | got (c : Scan) (key value : String)
  /-- After the `Put`, before `kvStore.Delete`. -/
  | sent (c : Scan) (key : String)
  deriving DecidableEq

/-- The steps of `RedistributeKeys`. -/
inductive SweepLabel where
  /-- `ReadConfig`; the mounted file may not have its `newShards` yet. -/
  | config (hasNewShards : Bool)
  /-- The range produces a key. -/
  | visit (key : String)
  | send (out : Outcome)
  | purge (out : Outcome)
  /-- The range is over. -/
  | finish

/-- What goes on without the goroutines. -/
inductive RaftLabel (Replica : Type*) where
  | apply (r : Replica)
  | restore (r : Replica) (snap : KVFSMSnapshot) (index : ℕ)
  /-- A late call takes effect. -/
  | settle (i : ℕ)

/-- The replica processes, with a record of the sweeps. -/
structure Stores (Shard Replica : Type*) extends Calls Shard Replica where
  /-- The shards that a goroutine has gone through without an error. -/
  swept : Shard → Bool

namespace Scan

/-- The range produces a key. -/
def visit (c : Scan) (k : String) : Scan := { c with seen := insert k c.seen }

/-- A call has ended with `out`. -/
def note (c : Scan) (out : Outcome) : Scan := { c with clean := c.clean && out = .ok }

end Scan

/-- The position in the model with one loop for each process. -/
def Sweep.loop : Sweep → Loop
  | config | scan _ => .idle
  | got _ k v => .got k v
  | sent _ k => .sent k

namespace Stores

variable {Shard Replica : Type*} [DecidableEq Shard]

/-- A call ends. -/
def deliver (x : Stores Shard Replica) (out : Outcome) (y : Shard) (e : KVFSMLogEntry) :
    Stores Shard Replica :=
  { x with toCalls := x.toCalls.deliver out y e }

/-- The range at shard `y` is over. -/
def finish (x : Stores Shard Replica) (y : Shard) (clean : Bool) : Stores Shard Replica :=
  if clean then { x with swept := Function.update x.swept y true } else x

@[simp] theorem toCalls_finish (x : Stores Shard Replica) (y : Shard) (clean : Bool) :
    (x.finish y clean).toCalls = x.toCalls := by
  unfold finish
  split_ifs <;> rfl

end Stores

section Body

variable {Shard Replica : Type*} [DecidableEq Shard] [DecidableEq Replica]
  (S : Scale Shard Replica)

omit [DecidableEq Replica] in
/-- The range produces `k`: the test of the rings, and `kvStore.Get`. -/
def Scan.take (x : Stores Shard Replica) (r : Replica) (c : Scan) (k : String) : Sweep :=
  if S.mustMove S.old r k then
    match (x.node r).get k with
    | .ok v => .got (c.visit k) k v
    -- the key is gone: the error is logged
    | .error _ => .scan (c.visit k)
  else .scan (c.visit k)

/-- `RedistributeKeys` after it has set `redistributingKeys`.  A range over a map produces no key
twice, and leaves out no key that stays; keys that come or go meanwhile may be produced or not. -/
def redistributeKeys : Job Replica (Stores Shard Replica) Sweep SweepLabel (RaftLabel Replica) where
  start := .config
  step r x
    | .config, .config hasNewShards =>
      some (x, if hasNewShards then some (.scan ⟨(x.node r).keys, ∅, true⟩) else none)
    | .scan c, .visit k =>
      if k ∉ c.seen ∧ (k ∈ c.due ∨ k ∈ (x.node r).keys) then some (x, c.take S x r k) else none
    | .got c k v, .send out =>
      -- `IsRedistribution: true`
      some (x.deliver out (S.new k) (.set k v),
        some (if out = .ok then .sent c k else .scan (c.note out)))
    | .sent c k, .purge out =>
      some (x.deliver out (S.home r) (.delete k), some (.scan (c.note out)))
    | .scan c, .finish =>
      if ∀ k ∈ c.due, k ∉ c.seen → k ∉ (x.node r).keys then
        some (x.finish (S.home r) c.clean, none)
      else none
    | _, _ => none
  env x
    | .apply r => (x.toReplicas.apply S.home r).map fun d => { x with toReplicas := d }
    | .restore r snap index => some { x with toReplicas := x.toReplicas.restore r snap index }
    | .settle i => (x.toCalls.settle i).map fun c => { x with toCalls := c }
  exit r x := { x with toReplicas := x.toReplicas.setNode r Node.opened 0 }

variable {S}

/-- **Everything that a step of the body can do.** -/
theorem step_cases {x x' : Stores Shard Replica} {r : Replica} {b : Sweep} {l : SweepLabel}
    {b' : Option Sweep} (h : (redistributeKeys S).step r x b l = some (x', b')) :
    (∃ hasNewShards, b = .config ∧ l = .config hasNewShards ∧ x' = x ∧
        b' = if hasNewShards = true then some (.scan ⟨(x.node r).keys, ∅, true⟩) else none) ∨
      (∃ c k, b = .scan c ∧ (k ∉ c.seen ∧ (k ∈ c.due ∨ k ∈ (x.node r).keys)) ∧ x' = x ∧
        b' = some (c.take S x r k)) ∨
      (∃ c k v out, b = .got c k v ∧ x' = x.deliver out (S.new k) (.set k v) ∧
        b' = some (if out = .ok then .sent c k else .scan (c.note out))) ∨
      (∃ c k out, b = .sent c k ∧ x' = x.deliver out (S.home r) (.delete k) ∧
        b' = some (.scan (c.note out))) ∨
      ∃ c, b = .scan c ∧ (∀ k ∈ c.due, k ∉ c.seen → k ∉ (x.node r).keys) ∧
        x' = x.finish (S.home r) c.clean ∧ b' = none := by
  simp only [redistributeKeys] at h
  split at h
  case h_1 hasNewShards =>
    cases h
    exact .inl ⟨hasNewShards, rfl, rfl, rfl, rfl⟩
  case h_2 c k =>
    split_ifs at h with hk
    cases h
    exact .inr (.inl ⟨c, k, rfl, hk, rfl, rfl⟩)
  case h_3 c k v out =>
    cases h
    exact .inr (.inr (.inl ⟨c, k, v, out, rfl, rfl, rfl⟩))
  case h_4 c k out =>
    cases h
    exact .inr (.inr (.inr (.inl ⟨c, k, out, rfl, rfl, rfl⟩)))
  case h_5 c =>
    split_ifs at h with hover
    cases h
    exact .inr (.inr (.inr (.inr ⟨c, rfl, hover, rfl, rfl⟩)))
  case h_6 => cases h

end Body

namespace Workers

variable {Shard Replica : Type*} [DecidableEq Shard] [DecidableEq Replica]

/-- Every interleaving of the goroutines of all processes with Raft. -/
def machine (S : Scale Shard Replica) :
    Machine (Flight Replica (Stores Shard Replica) Sweep)
      (FlightLabel Replica SweepLabel (RaftLabel Replica)) :=
  Flight.machine (redistributeKeys S)

/-- The state when the controller enters the phase: the replicas are in any state. -/
def start (d : Replicas Shard Replica) : Flight Replica (Stores Shard Replica) Sweep :=
  .opened ⟨⟨d, []⟩, fun _ => false⟩

variable {S : Scale Shard Replica} {d : Replicas Shard Replica}
  {s s' : Flight Replica (Stores Shard Replica) Sweep}

/-! ### At most one loop for each process -/

theorem exclusive_of_reached (h : (machine S).Reached (start d) s) : s.Exclusive :=
  h.invariant (I := Flight.Exclusive) (Flight.exclusive_opened _) fun _ _ _ hi _ hst => hi.next hst

/-- **At most one goroutine of a process moves keys.**  In every reachable state two goroutines of
one process that are both inside the loop are the same goroutine, and while one is inside, the flag
is set, so that every other one returns at its test. -/
theorem one_loop (d : Replicas Shard Replica) (h : (machine S).Reached (start d) s) {r : Replica}
    {i : ℕ} {b : Sweep} (hi : s.goroutines[i]? = some (r, .job b)) :
    s.busy r = true ∧ ∀ j b', s.goroutines[j]? = some (r, .job b') → j = i := by
  have hx := exclusive_of_reached h
  have hat : s.At FlightPoint.claims i r := ⟨_, hi, rfl⟩
  refine ⟨(hx.busy_iff r).2 ⟨i, hat⟩, fun j b' hj => ?_⟩
  exact hx.eq_of_claims ⟨_, hj, rfl⟩ hat

/-- Two shards with two replicas each; every key moves from shard `false` to shard `true`. -/
def twoShards : Scale Bool (Bool × Bool) := ⟨fun _ => false, fun _ => true, Prod.fst⟩

/-- Shard `false` has committed the key `"a"`, which one of its replicas has applied. -/
def oneKey : Replicas Bool (Bool × Bool) :=
  let d := (Replicas.opened Bool (Bool × Bool)).append false (.set "a" "1")
  (d.apply twoShards.home (false, false)).getD d

/-- Two polls in a row: the first goroutine has read the key, the second one finds the flag set. -/
theorem one_loop_two_polls :
    ∃ s, (machine twoShards).Reached (start oneKey) s ∧
      s.goroutines[1]? = some ((false, false), .refused) ∧ s.busy (false, false) = true ∧
      ∀ j b', s.goroutines[j]? = some ((false, false), .job b') → j = 0 := by
  have hs : (machine twoShards).Reached (start oneKey) _ := .of_run
    [.spawn (false, false), .spawn (false, false), .guard 0, .guard 0, .guard 0,
      .work 0 (.config true), .work 0 (.visit "a"), .guard 1, .guard 1] rfl
  obtain ⟨hbusy, hone⟩ := one_loop (i := 0) oneKey hs rfl
  exact ⟨_, hs, rfl, hbusy, hone⟩

/-! ### Refinement of the model with one loop for each process -/

/-- One step of the model with one loop for each process. -/
inductive Goes (S : Scale Shard Replica) (m : Movers Shard Replica) : Movers Shard Replica → Prop
  | start (r : Replica) : Goes S m (m.start r)
  | step {l : MoveLabel Replica} {m' : Movers Shard Replica} : m.step S l = some m' → Goes S m m'

/-- The same processes in the model with one loop for each process, before the first poll. -/
def movers (S : Scale Shard Replica) (c : Calls Shard Replica) : Movers Shard Replica :=
  ⟨c, fun _ => S.old, fun _ => .off⟩

/-- Where the loop of the process is, seen from one of its goroutines. -/
def loopAt : FlightPoint Sweep → Loop
  | .job b => b.loop
  | _ => .off

variable (S) in
/-- The state of the model with one loop for each process that stands for `s`: the logs, the
processes and the late calls are the same, and the loops are where the goroutines are. -/
structure Refines (s : Flight Replica (Stores Shard Replica) Sweep) (m : Movers Shard Replica) :
    Prop where
  calls : m.toCalls = s.shared.toCalls
  ring : ∀ r, m.ch r = S.old
  loop : ∀ (i : ℕ) r pt, s.goroutines[i]? = some (r, pt) → pt.claims = true → m.loop r = loopAt pt
  off : ∀ r, s.busy r = false → m.loop r = .off

omit [DecidableEq Shard] [DecidableEq Replica] in
theorem refines_start (S : Scale Shard Replica) (d : Replicas Shard Replica) :
    Refines S (start d) (movers S ⟨d, []⟩) :=
  ⟨rfl, fun _ => rfl, fun _ _ _ hi _ => by simp [start, Flight.opened] at hi, fun _ _ => rfl⟩

theorem goes_of_step {m : Movers Shard Replica} {x x' : Stores Shard Replica} {r : Replica}
    {b : Sweep} {l : SweepLabel} {b' : Option Sweep} (hcalls : m.toCalls = x.toCalls)
    (hring : m.ch r = S.old) (hloop : m.loop r = b.loop)
    (h : (redistributeKeys S).step r x b l = some (x', b')) :
    ∃ m', Relation.ReflTransGen (Goes S) m m' ∧ m'.toCalls = x'.toCalls ∧ m'.ch = m.ch ∧
      m'.loop = Function.update m.loop r (b'.elim .off Sweep.loop) := by
  have hsame : Function.update m.loop r b.loop = m.loop := by rw [← hloop, Function.update_eq_self]
  have hstop : m.loop r = .idle → m.step S (.stop r false) = some (m.goto r .off) := by
    intro hidle
    simp only [Movers.step, Movers.stop, hidle]
  rcases step_cases h with ⟨hasNewShards, rfl, -, rfl, rfl⟩ | ⟨c, k, rfl, -, rfl, rfl⟩ |
    ⟨c, k, v, out, rfl, rfl, rfl⟩ | ⟨c, k, out, rfl, rfl, rfl⟩ | ⟨c, rfl, -, rfl, rfl⟩
  · cases hasNewShards with
    | true => exact ⟨m, .refl, hcalls, rfl, hsame.symm⟩
    | false => exact ⟨_, .single (.step (hstop hloop)), hcalls, rfl, rfl⟩
  · simp only [Option.elim, Scan.take]
    split_ifs with hmove
    · -- `kvStore.Get` of a key that has to move
      have hmust : m.mustMove S r k = true := by rw [Movers.mustMove, hring]; exact hmove
      cases hget : (x'.node r).get k with
      | error e => exact ⟨m, .refl, hcalls, rfl, hsame.symm⟩
      | ok v =>
        refine ⟨m.goto r (.got k v), .single (.step (l := .read r k) ?_), hcalls, rfl, rfl⟩
        simp only [Movers.step, Movers.read]
        rw [if_pos ⟨hloop, hmust⟩, hcalls, hget]
    · exact ⟨m, .refl, hcalls, rfl, hsame.symm⟩
  · have hsend : m.step S (.send r out) = some ((m.deliver out (S.new k) (.set k v)).goto r
        (if out = .ok then .sent k else .idle)) := by
      simp only [Movers.step, Movers.send, hloop, Sweep.loop]
    refine ⟨_, .single (.step hsend), ?_, rfl, ?_⟩
    · show m.toCalls.deliver .. = x.toCalls.deliver ..
      rw [hcalls]
    · show Function.update m.loop r _ = _
      split_ifs <;> rfl
  · have hpurge : m.step S (.purge r out) =
        some ((m.deliver out (S.home r) (.delete k)).goto r .idle) := by
      simp only [Movers.step, Movers.purge, hloop, Sweep.loop]
    refine ⟨_, .single (.step hpurge), ?_, rfl, rfl⟩
    show m.toCalls.deliver .. = x.toCalls.deliver ..
    rw [hcalls]
  · exact ⟨_, .single (.step (hstop hloop)), by rw [Stores.toCalls_finish]; exact hcalls, rfl, rfl⟩

omit [DecidableEq Shard] in
/-- The goroutine that has claimed the loop, or claims it now, goes on. -/
theorem Refines.follow {m m' : Movers Shard Replica} {i : ℕ} {r : Replica}
    {pt pt' : FlightPoint Sweep} (h : Refines S s m) (hx : s.Exclusive)
    (ha : s.Advances s' i r pt pt') (hc : pt.claims = true ∨ pt'.claims = true)
    (hcalls : m'.toCalls = s'.shared.toCalls) (hring : m'.ch = m.ch)
    (hloop : m'.loop = Function.update m.loop r (loopAt pt')) : Refines S s' m' := by
  have hx' := hx.advances ha
  -- no other goroutine of the process has claimed the loop
  have hother : ∀ j, j ≠ i → ¬ s.At FlightPoint.claims j r := by
    intro j hj hat
    rcases hc with hc | hc
    · exact hj (hx.eq_of_claims hat ((ha.at_before r).2 ⟨rfl, hc⟩))
    · refine hj (hx'.eq_of_claims ((ha.at_after j r).2 ?_) ((ha.at_after i r).2 ?_))
      · rw [if_neg hj]; exact hat
      · rw [if_pos rfl]; exact ⟨rfl, hc⟩
  refine ⟨hcalls, fun q => by rw [hring]; exact h.ring q, fun j q pt₁ hj hpt => ?_, fun q hq => ?_⟩
  · rw [hloop]
    rw [ha.getElem?] at hj
    split_ifs at hj with hji
    · cases hj
      exact Function.update_self ..
    · have hqr : q ≠ r := by
        rintro rfl
        exact hother j hji ⟨pt₁, hj, hpt⟩
      rw [Function.update_of_ne hqr]
      exact h.loop j q pt₁ hj hpt
  · rw [hloop]
    by_cases hqr : q = r
    · subst hqr
      rw [Function.update_self]
      cases hpt : pt'.claims with
      | false => cases pt' <;> first | rfl | cases hpt
      | true =>
        have hat : s'.At FlightPoint.claims i q := (ha.at_after i q).2 (by simp [hpt])
        have hbusy := (hx'.busy_iff q).2 ⟨i, hat⟩
        rw [hq] at hbusy
        cases hbusy
    · rw [Function.update_of_ne hqr]
      refine h.off q ?_
      rw [ha.busy] at hq
      split_ifs at hq
      · exact hq
      · rwa [Function.update_of_ne hqr] at hq

omit [DecidableEq Shard] in
/-- A goroutine that has not claimed the loop goes on. -/
theorem Refines.stay {m : Movers Shard Replica} {i : ℕ} {r : Replica} {pt pt' : FlightPoint Sweep}
    (h : Refines S s m) (ha : s.Advances s' i r pt pt') (hpt : pt.claims = false)
    (hpt' : pt'.claims = false) (hshared : s'.shared = s.shared) : Refines S s' m := by
  refine ⟨by rw [hshared]; exact h.calls, h.ring, fun j q pt₁ hj hc => ?_, fun q hq => ?_⟩
  · rw [ha.getElem?] at hj
    split_ifs at hj with hji
    · cases hj
      rw [hpt'] at hc
      cases hc
    · exact h.loop j q pt₁ hj hc
  · rw [ha.busy, hpt, hpt', if_pos rfl] at hq
    exact h.off q hq

/-- An access to the mutex or the flag starts the loop, or does not touch it. -/
theorem Refines.guard {m : Movers Shard Replica} {i : ℕ} (h : Refines S s m) (hx : s.Exclusive)
    (hst : s.stepGuard (redistributeKeys S).start i = some s') :
    ∃ m', Relation.ReflTransGen (Goes S) m m' ∧ Refines S s' m' := by
  obtain ⟨r, pt, pt', ha, hf, hshared⟩ := Flight.advances_of_stepGuard hst
  have hcalls : m.toCalls = s'.shared.toCalls := by rw [hshared]; exact h.calls
  -- the loop is off on both sides of every access but the one that begins the body
  have hoff : m.loop r = .off → m.loop = Function.update m.loop r .off := by
    intro hr
    rw [← hr, Function.update_eq_self]
  cases hf with
  | lock | refuse | giveUp | finish => exact ⟨m, .refl, h.stay ha rfl rfl hshared⟩
  | claim =>
    exact ⟨m, .refl, h.follow hx ha (.inr rfl) hcalls rfl (hoff (h.off r (ha.unset rfl rfl)))⟩
  | lockAgain | reset =>
    exact ⟨m, .refl, h.follow hx ha (.inl rfl) hcalls rfl (hoff (h.loop i r _ ha.before rfl))⟩
  | begin =>
    have hr : m.loop r = .off := h.loop i r _ ha.before rfl
    refine ⟨_, .single (.start r), h.follow hx ha (.inl rfl) ?_ (Movers.ch_start m r) ?_⟩
    · rw [Movers.toCalls_start]
      exact hcalls
    · rw [Movers.start, if_pos hr]
      rfl

omit [DecidableEq Shard] [DecidableEq Replica] in
/-- A new goroutine has not claimed anything. -/
theorem Refines.spawn {m : Movers Shard Replica} (h : Refines S s m) (r : Replica) :
    Refines S { s with goroutines := s.goroutines ++ [(r, .enter)] } m := by
  refine ⟨h.calls, h.ring, fun i q pt hi hpt => ?_, h.off⟩
  rcases Nat.lt_or_ge i s.goroutines.length with hlt | hge
  · rw [List.getElem?_append_left hlt] at hi
    exact h.loop i q pt hi hpt
  · rw [List.getElem?_append_right hge] at hi
    have hmem := List.mem_of_getElem? hi
    rw [List.mem_singleton] at hmem
    cases hmem
    cases hpt

/-- What Raft does under the goroutines it does under the loops. -/
theorem exists_step_of_env {m : Movers Shard Replica} {x x' : Stores Shard Replica}
    {e : RaftLabel Replica} (hcalls : m.toCalls = x.toCalls)
    (hst : (redistributeKeys S).env x e = some x') :
    ∃ l, m.step S l = some { m with toCalls := x'.toCalls } := by
  have hreplicas : m.toReplicas = x.toReplicas := by rw [hcalls]
  cases e with
  | apply r =>
    obtain ⟨d, hd, rfl⟩ := Option.map_eq_some_iff.1 hst
    refine ⟨.apply r, ?_⟩
    simp only [Movers.step]
    rw [hreplicas, hd, ← hcalls]
    rfl
  | restore r snap index =>
    cases hst
    refine ⟨.restore r snap index, ?_⟩
    simp only [Movers.step]
    rw [hreplicas, ← hcalls]
  | settle i =>
    obtain ⟨c, hc, rfl⟩ := Option.map_eq_some_iff.1 hst
    refine ⟨.settle i, ?_⟩
    simp only [Movers.step, Movers.settle]
    rw [hcalls, hc]
    rfl

/-- A process that ends takes its goroutines and its loop with it. -/
theorem Refines.crash {m : Movers Shard Replica} (h : Refines S s m) (r : Replica) :
    Refines S (s.crash r ((redistributeKeys S).exit r s.shared))
      { m.goto r .off with toReplicas := m.toReplicas.setNode r Node.opened 0 } := by
  refine ⟨?_, h.ring, fun i q pt hi hpt => ?_, fun q hq => ?_⟩
  · show { m.toCalls with toReplicas := m.toReplicas.setNode r Node.opened 0 } = _
    rw [h.calls]
    rfl
  · simp only [Flight.crash, List.getElem?_map, Option.map_eq_some_iff] at hi
    obtain ⟨g, hg, heq⟩ := hi
    split_ifs at heq with hgr
    · cases heq
      cases hpt
    · subst heq
      exact (Function.update_of_ne hgr ..).trans (h.loop i q pt hg hpt)
  · by_cases hqr : q = r
    · rw [hqr]
      exact Function.update_self ..
    · refine (Function.update_of_ne hqr ..).trans (h.off q ?_)
      simpa only [Flight.crash, Function.update_of_ne hqr] using hq

/-- **One step of the goroutines** is one step of the loops, or none. -/
theorem Refines.next {m : Movers Shard Replica}
    {l : FlightLabel Replica SweepLabel (RaftLabel Replica)} (h : Refines S s m)
    (hx : s.Exclusive) (hst : (machine S).next s l = some s') :
    ∃ m', Relation.ReflTransGen (Goes S) m m' ∧ Refines S s' m' := by
  cases l with
  | spawn r =>
    cases hst
    exact ⟨m, .refl, h.spawn r⟩
  | guard i => exact h.guard hx hst
  | work i l =>
    obtain ⟨r, b, b', hstep, ha⟩ := Flight.advances_of_stepWork hst
    have hloop := h.loop i r (.job b) ha.before rfl
    obtain ⟨m', hm, hcalls, hring, hloop'⟩ := goes_of_step h.calls (h.ring r) hloop hstep
    refine ⟨m', hm, h.follow hx ha (.inl rfl) hcalls hring ?_⟩
    rw [hloop']
    cases b' <;> rfl
  | env e =>
    obtain ⟨x, hx, rfl⟩ := Option.map_eq_some_iff.1 hst
    obtain ⟨l, hl⟩ := exists_step_of_env h.calls hx
    exact ⟨_, .single (.step hl), rfl, h.ring, h.loop, h.off⟩
  | crash r =>
    cases hst
    have hrestart : m.step S (.restart r) = some
        { m.goto r .off with toReplicas := m.toReplicas.setNode r Node.opened 0 } := rfl
    exact ⟨_, .single (.step hrestart), h.crash r⟩

variable (S d) in
/-- All that has been committed since the start carries keys away from their old owners. -/
def Extends (log : Shard → List KVFSMLogEntry) : Prop :=
  ∀ x, ∃ es, log x = d.log x ++ es ∧ ∀ e ∈ es, Movers.Carries S x e

theorem extends_of_goes {m : Movers Shard Replica} (hd : d.Replays S.home)
    (h : Relation.ReflTransGen (Goes S) (movers S ⟨d, []⟩) m) :
    m.Orderly S ∧ Extends S d m.log := by
  induction h with
  | refl =>
    exact ⟨⟨fun _ => .inl rfl, hd, fun _ _ _ hl => (by cases hl), fun _ _ hl => (by cases hl),
      fun _ _ hp => absurd hp List.not_mem_nil⟩,
      fun x => ⟨[], (List.append_nil _).symm, fun e he => absurd he List.not_mem_nil⟩⟩
  | tail _ hm ih =>
    obtain ⟨ho, hext⟩ := ih
    cases hm with
    | start r =>
      refine ⟨ho.start r, ?_⟩
      rw [Movers.toCalls_start]
      exact hext
    | @step l m' hst =>
      refine ⟨ho.step hst, fun x => ?_⟩
      obtain ⟨es, hes, hcarries⟩ := hext x
      rw [(Movers.stepped_of_step hst).log]
      cases hc : Movers.commits S _ l with
      | none => exact ⟨es, hes, hcarries⟩
      | some p =>
        obtain ⟨y, e⟩ := p
        show ∃ es, (Replicas.append _ y e).log x = _ ∧ _
        rw [Replicas.log_append]
        split_ifs with hxy
        · subst hxy
          refine ⟨es ++ [e], by rw [hes, List.append_assoc], fun e' he' => ?_⟩
          rcases List.mem_append.1 he' with he' | he'
          · exact hcarries e' he'
          · rw [List.mem_singleton.1 he']
            rcases ho.commits hc with ⟨k, v, he, hx, hne, -⟩ | hdel
            · exact .inl ⟨k, v, he, hx, hne⟩
            · exact .inr hdel
        · exact ⟨es, hes, hcarries⟩

theorem exists_refines (h : (machine S).Reached (start d) s) :
    s.Exclusive ∧ ∃ m, Relation.ReflTransGen (Goes S) (movers S ⟨d, []⟩) m ∧ Refines S s m := by
  refine h.invariant (I := fun s => s.Exclusive ∧
    ∃ m, Relation.ReflTransGen (Goes S) (movers S ⟨d, []⟩) m ∧ Refines S s m)
    ⟨Flight.exclusive_opened _, _, .refl, refines_start S d⟩ fun s l s' hi _ hst => ?_
  obtain ⟨hx, m, hm, hr⟩ := hi
  obtain ⟨m', hm', hr'⟩ := hr.next hx hst
  exact ⟨hx.next hst, m', hm.trans hm', hr'⟩

/-- **The goroutines refine the one loop for each process.**  Whatever the goroutines and Raft do,
some run of the model with one loop for each process has the same logs, the same replica processes
and the same late calls, and its loops are where the goroutines are.  So, from replicas in any state
that Raft leaves them in, all that is ever committed is `Put`s of keys at their new owners and
deletions of keys at their old owners. -/
theorem refines_loops (d : Replicas Shard Replica) (h : (machine S).Reached (start d) s) :
    (∃ m, Relation.ReflTransGen (Goes S) (movers S ⟨d, []⟩) m ∧ Refines S s m) ∧
      (d.Replays S.home → Extends S d s.shared.log) := by
  obtain ⟨-, m, hm, hr⟩ := exists_refines h
  refine ⟨⟨m, hm, hr⟩, fun hd => ?_⟩
  rw [← hr.calls]
  exact (extends_of_goes hd hm).2

/-- The process of the first goroutine is killed after a `Put` that reported an error; the `Put`
takes effect, and the process, which has applied its log again, has read the same key again. -/
theorem refines_loops_killed :
    ∃ s, (machine twoShards).Reached (start oneKey) s ∧
      s.shared.log true = [.set "a" "1"] ∧
      ∃ m, Relation.ReflTransGen (Goes twoShards) (movers twoShards ⟨oneKey, []⟩) m ∧
        Refines twoShards s m := by
  have hs : (machine twoShards).Reached (start oneKey) _ := .of_run
    [.spawn (false, false), .guard 0, .guard 0, .guard 0, .work 0 (.config true),
      .work 0 (.visit "a"), .work 0 (.send .lost), .crash (false, false), .env (.settle 0),
      .env (.apply (false, false)), .spawn (false, false), .guard 1, .guard 1, .guard 1,
      .work 1 (.config true), .work 1 (.visit "a")] rfl
  exact ⟨_, hs, rfl, (refines_loops oneKey hs).1⟩

end Workers

end ShardedKvs
