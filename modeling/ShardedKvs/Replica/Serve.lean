import ShardedKvs.Replica.Drain

/-!
# Reads while keys move

A `Get` is routed by the ring of the replica that it enters through, and answered by any replica of
that shard from its own store.  While a key is moved, it leaves its old owner before any replica has
the new ring.  Here nothing fails: no client writes, every call succeeds, every replica starts with
the whole log applied, and every reload finds the final config.

* `Draining.Calm` : the steps of a run without client writes and without failures.
* `Draining.kvServerGet` : a `Get` through a replica `e` that a replica `q` answers.
* `Draining.readable_iff` : **reads keep working exactly when no stored key changes its owner**.
* `Draining.not_readable` : a key that has been moved is not found.
-/

namespace ShardedKvs

/-- A cluster before a scale operation: every replica has applied the whole log of its shard, and
every key is at its owner under the old ring. -/
structure Loaded {Shard Replica : Type*} (S : Scale Shard Replica) where
  data : Replicas Shard Replica
  replays : data.Replays S.home
  current : ∀ r, data.Current S.home r
  placed : ∀ x k, (data.committed x).lookup k ≠ none → x = S.old k

/-- The value of a key before the scale operation. -/
def Loaded.content {Shard Replica : Type*} {S : Scale Shard Replica} (D : Loaded S) (k : String) :
    Option String :=
  (D.data.committed (S.old k)).lookup k

namespace Draining

variable {Shard Replica : Type*}

/-- The state when the controller enters `StoppingWrites`. -/
def start {S : Plan Shard Replica} (D : Loaded S.toScale) : Draining Shard Replica :=
  { opened S.toScale with toReplicas := D.data }

/-- No client writes and nothing fails. -/
def Calm (s : Draining Shard Replica) : Label Shard Replica → Prop
  | .issue _ _ | .serve _ _ | .start _ => False
  | .pause _ answered | .poll _ answered => answered = true
  | .move l => match l with
    | .apply _ | .read _ _ => True
    | .send _ out | .purge _ out => out = .ok
    -- a goroutine ends when it has gone through its keys
    | .stop r underWay => s.loop r = .idle ∧ underWay = false
    | .restore _ _ _ | .restart _ | .settle _ => False
  | .reload _ fresh => fresh = true
  | .resume _ | .reconcile | .advance => True

/-- `FinalizeScale` has deleted the StatefulSet of the shard. -/
def gone (S : Plan Shard Replica) (s : Draining Shard Replica) (x : Shard) : Bool :=
  S.removed x && (s.phase == .resumingWrites || s.phase == .normal)

/-- `kvServer.Get` on the replica `e`, and `shardRpcServer.Get` on the replica `q` of the shard that
it is routed to; a shard that is gone does not answer. -/
def kvServerGet (S : Plan Shard Replica) (s : Draining Shard Replica) (e q : Replica)
    (k : String) : Option (Except KeyNotFound String) :=
  if s.gone S (s.ch e k) then none else some ((s.node q).get k)

/-- A `Get` of a key that was stored before the scale operation returns its value, whichever replica
of a shard that stays it enters through, and whichever replica answers it. -/
def Readable {S : Plan Shard Replica} (D : Loaded S.toScale) (s : Draining Shard Replica) : Prop :=
  ∀ k v, D.content k = some v → ∀ e q, S.removed (S.home e) = false → S.home q = s.ch e k →
    s.kvServerGet S e q k = some (.ok v)

/-! ### When no stored key changes its owner -/

section

variable [DecidableEq Shard] [DecidableEq Replica] {S : Plan Shard Replica} {D : Loaded S.toScale}
  {s s' : Draining Shard Replica}

/-- Nothing moves: the processes stay as they were, and no goroutine gets hold of a key. -/
structure Unmoved (D : Loaded S.toScale) (m : Movers Shard Replica) : Prop where
  data : m.toReplicas = D.data
  ring : ∀ r, m.ch r = S.old ∨ m.ch r = S.new
  loop : ∀ r, m.loop r = .off ∨ m.loop r = .idle

omit [DecidableEq Shard] [DecidableEq Replica] in
/-- Keys that do not change their owner are found with either ring. -/
theorem Unmoved.readable (h : Unmoved D s.toMovers)
    (hstay : ∀ k, D.content k ≠ none → S.old k = S.new k) : s.Readable D := by
  intro k v hk e q _ hq
  have hown : S.old k = S.new k := hstay k (by rw [hk]; simp)
  have hroute : s.ch e k = S.old k := by
    rcases h.ring e with he | he
    · rw [he]
    · rw [he, hown]
  have hgone : s.gone S (s.ch e k) = false := by
    simp only [gone, hroute, hown, S.removed_new, Bool.false_and]
  rw [kvServerGet, hgone, if_neg (by simp), h.data]
  refine congrArg some ((D.replays.get_current (D.current q) k v).2 ?_)
  rw [hq, hroute]
  exact hk

omit [DecidableEq Shard] in
theorem Unmoved.goto (h : Unmoved D s.toMovers) (r : Replica) {p : Loop}
    (hp : p = .off ∨ p = .idle) : Unmoved D (s.toMovers.goto r p) := by
  refine ⟨h.data, h.ring, fun r' => ?_⟩
  rw [Movers.loop_goto]
  split
  · exact hp
  · exact h.loop r'

omit [DecidableEq Replica] in
theorem Unmoved.get_ne (h : Unmoved D s.toMovers)
    (hstay : ∀ k, D.content k ≠ none → S.old k = S.new k) {r : Replica} {k v : String}
    (hmust : s.toMovers.mustMove S.toScale r k = true) : (s.node r).get k ≠ .ok v := by
  intro hget
  rw [h.data] at hget
  have hk := (D.replays.get_current (D.current r) k v).1 hget
  have hhome := D.placed (S.home r) k (by rw [hk]; simp)
  rw [hhome] at hk
  have hown := hstay k (by rw [Loaded.content, hk]; simp)
  refine ((Movers.mustMove_iff r k).1 hmust).1 ?_
  rcases h.ring r with hr | hr
  · rw [hr]
    exact hown
  · rw [hr]

theorem Unmoved.move (h : Unmoved D s.toMovers)
    (hstay : ∀ k, D.content k ≠ none → S.old k = S.new k) {l : MoveLabel Replica}
    {m : Movers Shard Replica} (hok : s.Calm (.move l : Label Shard Replica))
    (hst : s.toMovers.step S.toScale l = some m) : Unmoved D m := by
  -- a goroutine that holds no key neither sends nor deletes one
  have hgot : ∀ r k v, s.loop r ≠ .got k v := by
    intro r k v hr
    rcases h.loop r with hl | hl <;> exact nomatch hl.symm.trans hr
  have hsent : ∀ r k, s.loop r ≠ .sent k := by
    intro r k hr
    rcases h.loop r with hl | hl <;> exact nomatch hl.symm.trans hr
  cases l with
  | apply r =>
    obtain ⟨d, hd, rfl⟩ := Option.map_eq_some_iff.1 hst
    have hcur : s.Current S.home r := by rw [h.data]; exact D.current r
    cases hcur.apply.symm.trans hd
    exact h
  | read r k =>
    simp only [Movers.step, Movers.read] at hst
    split at hst
    · rename_i hmust
      split at hst
      · rename_i v hget
        exact absurd hget (h.get_ne hstay hmust.2)
      · cases hst; exact h
    · cases hst
  | send r out =>
    simp only [Movers.step, Movers.send] at hst
    split at hst
    · rename_i k v hr
      exact absurd hr (hgot r k v)
    · cases hst
  | purge r out =>
    simp only [Movers.step, Movers.purge] at hst
    split at hst
    · rename_i k hr
      exact absurd hr (hsent r k)
    · cases hst
  | stop r underWay =>
    cases hst
    simp only [Movers.stop, hok.1]
    exact h.goto r (.inl rfl)
  | restore | restart | settle => exact hok.elim

omit [DecidableEq Shard] in
theorem Unmoved.start (h : Unmoved D s.toMovers) (r : Replica) :
    Unmoved D (s.toMovers.start r) := by
  unfold Movers.start
  split
  · exact h.goto r (.inr rfl)
  · exact h

omit [DecidableEq Shard] in
theorem Unmoved.reload (h : Unmoved D s.toMovers) (r : Replica) :
    Unmoved D { s.toMovers with ch := Function.update s.ch r S.new } :=
  ⟨h.data, Movers.ring_reload h.ring r, h.loop⟩

variable [Fintype Shard] [Fintype Replica]

omit [DecidableEq Shard] [DecidableEq Replica] [Fintype Replica] in
theorem toMovers_advance (hst : s.advance S = some s') : s'.toMovers = s.toMovers := by
  unfold advance at hst
  split at hst
  · split at hst <;> cases hst
    rfl
  · split at hst <;> cases hst
    rfl
  · cases hst; rfl
  · split at hst <;> cases hst
    rfl
  · cases hst

theorem Unmoved.next (h : Unmoved D s.toMovers)
    (hstay : ∀ k, D.content k ≠ none → S.old k = S.new k) {l : Label Shard Replica}
    (hok : s.Calm l) (hst : s.next S l = some s') : Unmoved D s'.toMovers := by
  cases l with
  | issue | serve | start => exact hok.elim
  | pause x answered =>
    simp only [Draining.next] at hst
    split at hst <;> cases hst
    exact h
  | poll r answered =>
    simp only [Draining.next] at hst
    split at hst <;> cases hst
    exact h.start r
  | move l =>
    obtain ⟨m, hm, rfl⟩ := Option.map_eq_some_iff.1 hst
    exact h.move hstay hok hm
  | reload r fresh =>
    simp only [Draining.next] at hst
    split at hst <;> cases hst
    rw [show fresh = true from hok]
    exact h.reload r
  | resume x =>
    simp only [Draining.next] at hst
    split at hst <;> cases hst
    exact h
  | reconcile => cases hst; exact h
  | advance =>
    rw [toMovers_advance hst]
    exact h

/-! ### A run that moves a key -/

theorem reached_paused (D : Loaded S.toScale) (xs : List Shard) :
    ∃ s, (machine S).ReachedBy Calm (start D) s ∧ s.toMovers = (start D).toMovers ∧
      s.phase = .stoppingWrites ∧ (∀ x ∈ xs, s.paused x = true) ∧ ∀ x, s.round x = none := by
  induction xs with
  | nil => exact ⟨start D, .start, rfl, rfl, nofun, fun _ => rfl⟩
  | cons x xs ih =>
    obtain ⟨s, hs, hm, hp, hpaused, hround⟩ := ih
    have hst : (machine S).next s (.pause x true) = some { s with
        pausing := true, paused := Function.update s.paused x (true || s.paused x) } := by
      simp only [machine, Draining.next, hp, if_true]
    refine ⟨_, hs.step (l := .pause x true) rfl hst, hm, hp, fun y hy => ?_, hround⟩
    show Function.update s.paused x (true || s.paused x) y = true
    by_cases hyx : y = x
    · rw [hyx, Function.update_self, Bool.true_or]
    · rw [Function.update_of_ne hyx]
      exact hpaused y ((List.mem_cons.1 hy).resolve_left hyx)

theorem reached_redistributing (D : Loaded S.toScale) :
    ∃ s, (machine S).ReachedBy Calm (start D) s ∧ s.toMovers = (start D).toMovers ∧
      s.phase = .redistributingKeys ∧ ∀ x, s.round x = none := by
  obtain ⟨s, hs, hm, hp, hpaused, -⟩ := reached_paused D (Finset.univ : Finset Shard).toList
  have hall : ∀ x, s.paused x = true := fun x => hpaused x (by simp)
  have hst : (machine S).next s .advance = some { s with
      phase := .redistributingKeys, pausing := true, round := fun _ => none } := by
    simp only [machine, Draining.next, advance, hp, if_pos hall]
  exact ⟨_, hs.step (l := .advance) trivial hst, hm, rfl, fun _ => rfl⟩

theorem reached_move {s₀ : Draining Shard Replica} (h : (machine S).ReachedBy Calm s₀ s)
    {l : MoveLabel Replica} (hok : s.Calm (.move l : Label Shard Replica))
    {m : Movers Shard Replica} (hst : s.toMovers.step S.toScale l = some m) :
    ∃ s', (machine S).ReachedBy Calm s₀ s' ∧ s'.toMovers = m ∧ s'.phase = s.phase := by
  have hnext : (machine S).next s (.move l) = some { s with
      toMovers := m
      history := s.history ++ ((s.toMovers.commits S.toScale l).map fun p =>
        Commit.moved s.phase p.1 p.2).toList } := by
    simp only [machine, Draining.next, hst]
    rfl
  exact ⟨_, h.step hok hnext, rfl, rfl⟩

theorem reached_polled (D : Loaded S.toScale) (r : Replica) :
    ∃ s, (machine S).ReachedBy Calm (start D) s ∧
      s.toMovers = (start D).toMovers.goto r .idle ∧ s.phase = .redistributingKeys := by
  obtain ⟨s, hs, hm, hp, hround⟩ := reached_redistributing D
  have hst : (machine S).next s (.poll r true) = some (s.poll S r true) := by
    simp only [machine, Draining.next, hp, hround, and_self, if_true]
  refine ⟨_, hs.step (l := .poll r true) rfl hst, ?_, hp⟩
  show s.toMovers.start r = _
  rw [hm]
  rfl

/-- A replica moves a key away and applies the deletion, while every replica is on the old ring. -/
theorem reached_moved (D : Loaded S.toScale) {k v : String} (hk : D.content k = some v)
    (hne : S.old k ≠ S.new k) {r : Replica} (hr : S.home r = S.old k) :
    ∃ s, (machine S).ReachedBy Calm (start D) s ∧ (∀ e, s.ch e = S.old) ∧
      s.phase = .redistributingKeys ∧ (s.node r).get k ≠ .ok v := by
  have hget : (D.data.node r).get k = .ok v :=
    (D.replays.get_current (D.current r) k v).2 (by rw [hr]; exact hk)
  obtain ⟨s₁, h₁, hm₁, hp₁⟩ := reached_polled D r
  -- the goroutine reads the key, sends it, and deletes it
  obtain ⟨s₂, h₂, hm₂, hp₂⟩ := reached_move h₁ (l := .read r k) trivial
    (m := s₁.toMovers.goto r (.got k v)) (by
      have hidle : s₁.loop r = .idle ∧ s₁.toMovers.mustMove S.toScale r k = true := by
        rw [Movers.mustMove_iff, hm₁]
        exact ⟨by rw [Movers.loop_goto, if_pos rfl], hne, hr.symm⟩
      have hnode : (s₁.node r).get k = .ok v := by rw [hm₁]; exact hget
      simp only [Movers.step, Movers.read, if_pos hidle, hnode])
  obtain ⟨s₃, h₃, hm₃, hp₃⟩ := reached_move h₂ (l := .send r .ok) rfl
    (m := (s₂.toMovers.deliver .ok (S.new k) (.set k v)).goto r (.sent k)) (by
      have hgot : s₂.loop r = .got k v := by rw [hm₂, Movers.loop_goto, if_pos rfl]
      simp only [Movers.step, Movers.send, hgot, if_true])
  obtain ⟨s₄, h₄, hm₄, hp₄⟩ := reached_move h₃ (l := .purge r .ok) rfl
    (m := (s₃.toMovers.deliver .ok (S.home r) (.delete k)).goto r .idle) (by
      have hsent : s₃.loop r = .sent k := by rw [hm₃, Movers.loop_goto, if_pos rfl]
      simp only [Movers.step, Movers.purge, hsent])
  -- and its state machine applies the deletion
  have hdata : s₄.toReplicas =
      (D.data.append (S.new k) (.set k v)).append (S.home r) (.delete k) := by
    rw [hm₄, Movers.goto, Movers.deliver, hm₃, Movers.goto, Movers.deliver, hm₂, hm₁]
    rfl
  have hcur : (D.data.append (S.new k) (.set k v)).Current S.home r := by
    refine ⟨?_, (D.current r).unrestored⟩
    rw [Replicas.log_append, if_neg fun he => hne (hr.symm.trans he)]
    exact (D.current r).applied
  obtain ⟨d, hd, hlog, hreplays, hcur'⟩ :=
    (D.replays.append (S.new k) (.set k v)).exists_apply_append hcur (.delete k)
  obtain ⟨s₅, h₅, hm₅, hp₅⟩ := reached_move h₄ (l := .apply r) trivial
    (m := { s₄.toMovers with toReplicas := d }) (by
      simp only [Movers.step, hdata, hd, Option.map_some])
  refine ⟨s₅, h₅, fun e => ?_, ?_, fun hok => ?_⟩
  · rw [hm₅, hm₄, Movers.goto, Movers.deliver, hm₃, Movers.goto, Movers.deliver, hm₂, hm₁]
    rfl
  · rw [hp₅, hp₄, hp₃, hp₂, hp₁]
  · rw [hm₅] at hok
    have hlookup := (hreplays.get_current hcur' k v).1 hok
    rw [Replicas.committed, hlog, lookup_storeOf, latest_concat,
      KVFSMLogEntry.pickKey_delete, if_pos rfl, Option.getD_some] at hlookup
    cases hlookup

/-- **Reads keep working exactly when no stored key changes its owner.**  For all rings, all stores
with every key at its old owner, and all clusters in which every shard has a replica: in every state
of every run without client writes and without failures each `Get` through a replica of a shard that
stays returns the value of its key, if and only if the scale operation moves none of the stored
keys. -/
theorem readable_iff (D : Loaded S.toScale) (hhome : Function.Surjective S.home) :
    (∀ s, (machine S).ReachedBy Calm (start D) s → s.Readable D) ↔
      ∀ k, D.content k ≠ none → S.old k = S.new k := by
  constructor
  · intro h k hk
    by_contra hne
    obtain ⟨v, hv⟩ := Option.ne_none_iff_exists'.1 hk
    obtain ⟨r, hr⟩ := hhome (S.old k)
    obtain ⟨e, he⟩ := hhome (S.new k)
    obtain ⟨s, hs, hring, hp, hget⟩ := reached_moved D hv hne hr
    -- the `Get` enters at the new owner and is sent to the old one
    have hroute : S.home r = s.ch e k := by rw [hring e, hr]
    have hread := h s hs k v hv e r (by rw [he]; exact S.removed_new k) hroute
    have hgone : s.gone S (s.ch e k) = false := by
      rw [gone, hp]
      exact Bool.and_false _
    rw [kvServerGet, hgone, if_neg (by simp)] at hread
    exact hget (Option.some.inj hread)
  · intro hstay s hs
    have hstart : Unmoved D (start D).toMovers :=
      ⟨rfl, fun _ => .inl rfl, fun _ => .inl rfl⟩
    exact (hs.invariant (I := fun s => Unmoved D s.toMovers) hstart
      fun _ _ _ hi hok hst => hi.next hstay hok hst).readable hstay

end

/-- Shard `false` has stored a key, and its replica has applied the entry. -/
def oneKey : Loaded Plan.moveAll.toScale where
  data := (((Replicas.opened Bool Bool).append false (.set "a" "1")).apply id false).get rfl
  replays := ((Replicas.replays_opened id).append false (.set "a" "1")).apply
    (Option.some_get rfl).symm
  current r := by cases r <;> exact ⟨rfl, rfl⟩
  placed x k hk := by
    cases x with
    | false => rfl
    | true => exact absurd rfl hk

theorem readable_iff_one_key :
    (∀ s, (machine Plan.moveAll).ReachedBy Calm (start oneKey) s → s.Readable oneKey) ↔
      ∀ k, oneKey.content k ≠ none → Plan.moveAll.old k = Plan.moveAll.new k :=
  readable_iff oneKey Function.surjective_id

/-- **A key that has been moved is not found**: the replica that the `Get` enters through still has
the old ring, and sends it to the shard that the key has left. -/
theorem not_readable :
    ∃ s, (machine Plan.moveAll).ReachedBy Calm (start oneKey) s ∧
      s.phase = .redistributingKeys ∧
      s.kvServerGet Plan.moveAll true false "a" = some (.error {}) ∧ ¬ s.Readable oneKey := by
  refine ⟨_, .head (l := .pause false true) rfl rfl <|
    .head (l := .pause true true) rfl rfl <|
    .head (l := .advance) trivial rfl <|
    .head (l := .poll false true) rfl rfl <|
    .head (l := .move (.read false "a")) trivial rfl <|
    .head (l := .move (.send false .ok)) rfl rfl <|
    .head (l := .move (.purge false .ok)) rfl rfl <|
    .head (l := .move (.apply false)) trivial rfl <| .start, rfl, rfl, ?_⟩
  intro h
  exact nomatch h "a" "1" rfl true false rfl rfl

end Draining

end ShardedKvs
