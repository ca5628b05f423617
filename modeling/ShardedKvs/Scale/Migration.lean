import ShardedKvs.Scale.Basic
import ShardedKvs.Text.Decimal

/-!
# Migration without client writes

The controller polls every shard, again and again, while the goroutines of any number of replicas
move keys: several of one shard after a change of leader, with `Put`s and `Delete`s that fail, or
that take effect and report an error.

* `Migration.machine` : every interleaving of polls and goroutines.
* `Migration.Whole` : every key is at its old owner or its new owner, with its value, and nowhere
  else.
* `Migration.Moved` : every key is at its new owner only.
* `Migration.whole_and_moved` : `Whole` holds **in every reachable state**, and `Moved` holds
  **whenever every shard has answered 0 in one round**, as long as no poll counts a positive
  multiple of `2 ^ 32` keys.
* `Migration.not_moved_of_truncation` : a shard with `2 ^ 32` keys to move answers 0, since the
  answer is an `int32`.
-/

namespace ShardedKvs

/-- The shards while the controller polls them. -/
structure Migration (Shard Replica : Type*) where
  fleet : Fleet Shard Replica
  /-- The answers of this polling round. -/
  round : Shard → Option ℤ

namespace Migration

variable {Shard Replica : Type*} [DecidableEq Shard] [DecidableEq Replica]

/-- The steps of the goroutines and of the controller. -/
inductive Label (Replica : Type*) where
  | loop (l : LoopLabel Replica)
  /-- The controller calls `RedistributeKeys` of a shard, and the replica `r` serves the call. -/
  | poll (r : Replica) (answered : Bool)
  /-- The next `Reconcile` starts a new round. -/
  | newRound

/-- One step.  A round asks every shard at most once, and is over when a call fails. -/
def next (S : Scale Shard Replica) (m : Migration Shard Replica) :
    Label Replica → Option (Migration Shard Replica)
  | .loop l => (m.fleet.step S l).map fun f => { m with fleet := f }
  | .poll r answered =>
    if m.round (S.home r) ≠ none then none
    else if answered then
      some ⟨m.fleet.start r, Function.update m.round (S.home r) (some (m.fleet.answer S r))⟩
    -- the goroutine has started although the answer is lost
    else some ⟨m.fleet.start r, fun _ => none⟩
  | .newRound => some { m with round := fun _ => none }

/-- Every interleaving of the goroutines and the polls. -/
def machine (S : Scale Shard Replica) : Machine (Migration Shard Replica) (Label Replica) :=
  ⟨next S⟩

/-- The state when the controller enters the phase: all processes route with the old ring. -/
def start {S : Scale Shard Replica} (P : Placement S) : Migration Shard Replica where
  fleet := ⟨P.store, fun _ => S.old, fun _ => .off⟩
  round _ := none

/-- Every key is at its old owner or its new owner, with its value; no other shard has it, and
there is no other key. -/
structure Whole {S : Scale Shard Replica} (P : Placement S) (f : Fleet Shard Replica) : Prop where
  kept : ∀ k v, P.content k = some v → f.get (S.old k) k = some v ∨ f.get (S.new k) k = some v
  only : ∀ s k v, f.get s k = some v → P.content k = some v ∧ (s = S.old k ∨ s = S.new k)

/-- Every key is at its new owner, with its value, and at no other shard. -/
def Moved {S : Scale Shard Replica} (P : Placement S) (f : Fleet Shard Replica) : Prop :=
  ∀ s k, f.get s k = if s = S.new k then P.content k else none

/-- The poll does not count a positive multiple of `2 ^ 32` keys. -/
def Fits (S : Scale Shard Replica) (m : Migration Shard Replica) : Label Replica → Prop
  | .poll r _ => ¬ (0 < m.fleet.pendingKeys S r ∧ 2 ^ 32 ∣ m.fleet.pendingKeys S r)
  | _ => True

/-! ### The invariant of the goroutines -/

variable {S : Scale Shard Replica} {P : Placement S} {f f' : Fleet Shard Replica}

/-- The invariant of the goroutines: a key that has been read is still one to move, and a key that
has been sent is at its new owner. -/
structure Inv (P : Placement S) (f : Fleet Shard Replica) : Prop where
  ring : ∀ r, f.ch r = S.old
  whole : Whole P f
  got : ∀ r k v, f.loop r = .got k v →
    P.content k = some v ∧ S.old k = S.home r ∧ S.new k ≠ S.home r
  sent : ∀ r k, f.loop r = .sent k → S.old k = S.home r ∧ S.new k ≠ S.home r ∧
    f.get (S.new k) k = P.content k ∧ P.content k ≠ none

omit [DecidableEq Shard] in
theorem Inv.goto (h : Inv P f) {r : Replica} {l : Loop}
    (hgot : ∀ k v, l = .got k v → P.content k = some v ∧ S.old k = S.home r ∧ S.new k ≠ S.home r)
    (hsent : ∀ k, l = .sent k → S.old k = S.home r ∧ S.new k ≠ S.home r ∧
      f.get (S.new k) k = P.content k ∧ P.content k ≠ none) : Inv P (f.goto r l) := by
  refine ⟨h.ring, ⟨h.whole.kept, h.whole.only⟩, fun r' k v hl => ?_, fun r' k hl => ?_⟩
  all_goals
    rw [Fleet.loop_goto] at hl
    split_ifs at hl with hr
  · subst hr; exact hgot k v hl
  · exact h.got r' k v hl
  · subst hr; exact hsent k hl
  · exact h.sent r' k hl

omit [DecidableEq Replica] in
theorem Inv.write_set (h : Inv P f) {k v : String} (hv : P.content k = some v) :
    Inv P (f.write (S.new k) (.set k v)) := by
  refine ⟨h.ring, ⟨fun k' v' hv' => ?_, fun s k' v' hv' => ?_⟩, h.got, fun r k' hl => ?_⟩
  · rw [Fleet.get_write_set, Fleet.get_write_set]
    by_cases hk : k' = k
    · subst hk; right; rw [if_pos ⟨rfl, rfl⟩, ← hv, hv']
    · simpa only [hk, and_false, if_false] using h.whole.kept k' v' hv'
  · rw [Fleet.get_write_set] at hv'
    split_ifs at hv' with hk
    · obtain ⟨rfl, rfl⟩ := hk
      exact ⟨hv.trans hv', .inr rfl⟩
    · exact h.whole.only s k' v' hv'
  · obtain ⟨hold, hnew, hget, hne⟩ := h.sent r k' hl
    refine ⟨hold, hnew, ?_, hne⟩
    rw [Fleet.get_write_set]
    split_ifs with hk
    · obtain ⟨-, rfl⟩ := hk; exact hv.symm
    · exact hget

omit [DecidableEq Replica] in
theorem Inv.write_delete (h : Inv P f) {r : Replica} {k : String} (hloop : f.loop r = .sent k) :
    Inv P (f.write (S.home r) (.delete k)) := by
  obtain ⟨-, hnew, hget, -⟩ := h.sent r k hloop
  -- the copy at the new owner is not touched
  have hkeep : ∀ k', (f.write (S.home r) (.delete k)).get (S.new k') k' = f.get (S.new k') k' := by
    intro k'
    rw [Fleet.get_write_delete, if_neg]
    rintro ⟨hs, rfl⟩
    exact hnew hs
  refine ⟨h.ring, ⟨fun k' v hv => ?_, fun s k' v hv => ?_⟩, h.got, fun r' k' hl => ?_⟩
  · rw [hkeep]
    by_cases hk : k' = k
    · subst hk; exact .inr (hget.trans hv)
    · rw [Fleet.get_write_delete, if_neg fun hc => hk hc.2]
      exact h.whole.kept k' v hv
  · rw [Fleet.get_write_delete] at hv
    split_ifs at hv
    exact h.whole.only s k' v hv
  · rw [hkeep]; exact h.sent r' k' hl

omit [DecidableEq Replica] in
theorem Inv.mustMove (h : Inv P f) {r : Replica} {k : String} :
    f.mustMove S r k = true ↔ S.old k = S.home r ∧ S.new k ≠ S.home r := by
  rw [Fleet.mustMove_iff, h.ring]
  constructor
  · rintro ⟨hne, heq⟩; exact ⟨heq, fun hn => hne (heq.trans hn.symm)⟩
  · rintro ⟨heq, hne⟩; exact ⟨fun hn => hne (hn.symm.trans heq), heq⟩

theorem Inv.moves (h : Inv P f) (hm : f.Moves S f') : Inv P f' := by
  cases hm with
  | pass => exact h
  | rest hl =>
    refine h.goto (fun k v hl' => ?_) fun k hl' => ?_ <;>
      (subst hl'; rcases hl with hl | hl <;> cases hl)
  | @read r k v hmust hget =>
    refine h.goto (fun k' v' hl => ?_) fun k' hl => by cases hl
    cases hl
    exact ⟨(h.whole.only _ _ _ hget).1, h.mustMove.1 hmust⟩
  | @send r k v l hloop hl =>
    obtain ⟨hv, hhome⟩ := h.got r k v hloop
    refine (h.write_set hv).goto (fun k' v' hl' => ?_) fun k' hl' => ?_
    · subst hl'; rcases hl with hl | hl <;> cases hl
    · subst hl'
      rcases hl with hl | hl <;> cases hl
      refine ⟨hhome.1, hhome.2, ?_, by rw [hv]; simp⟩
      rw [Fleet.get_write_set, if_pos ⟨rfl, rfl⟩, hv]
  | @purge r k hloop =>
    exact (h.write_delete hloop).goto (fun k v hl => by cases hl) fun k hl => by cases hl

omit [DecidableEq Shard] [DecidableEq Replica] in
theorem inv_start (P : Placement S) : Inv P (start P).fleet := by
  refine ⟨fun _ => rfl, ⟨fun k v hv => .inl hv, fun s k v hv => ?_⟩, fun _ _ _ hl => ?_,
    fun _ _ hl => ?_⟩
  rotate_left
  · cases hl
  · cases hl
  have hs : s = S.old k := P.placed s k (by
    change (P.store s).lookup k = some v at hv
    rw [hv]; simp)
  subst hs
  exact ⟨hv, .inl rfl⟩

/-! ### What a round of zeros says -/

/-- No key has to leave the shard any more. -/
def Cleared (S : Scale Shard Replica) (f : Fleet Shard Replica) (s : Shard) : Prop :=
  ∀ k, S.old k = s → S.new k ≠ s → f.get s k = none

/-- A shard never gets keys to move: a key is only ever sent to its new owner. -/
theorem Cleared.moves {s : Shard} (h : Cleared S f s) (hm : f.Moves S f') : Cleared S f' s := by
  intro k hold hnew
  cases hm with
  | pass | rest | read => exact h k hold hnew
  | @send r k' v l hloop hl =>
    rw [Fleet.get_goto, Fleet.get_write_set, if_neg]
    · exact h k hold hnew
    · rintro ⟨hs, rfl⟩; exact hnew hs.symm
  | @purge r k' hloop =>
    rw [Fleet.get_goto, Fleet.get_write_delete]
    split_ifs
    · rfl
    · exact h k hold hnew

omit [DecidableEq Replica] in
theorem Inv.cleared (h : Inv P f) {r : Replica} (hp : f.pendingKeys S r = 0) :
    Cleared S f (S.home r) := by
  intro k hold hnew
  exact (Fleet.pendingKeys_eq_zero_iff r).1 hp k (h.mustMove.2 ⟨hold, hnew⟩)

/-- A shard that has answered 0 in this round has no keys left to move. -/
def Counted (S : Scale Shard Replica) (m : Migration Shard Replica) : Prop :=
  ∀ s, m.round s = some 0 → Cleared S m.fleet s

theorem moves_of_next {m m' : Migration Shard Replica} {l : Label Replica}
    (h : next S m l = some m') : m.fleet.Moves S m'.fleet := by
  cases l with
  | loop l =>
    obtain ⟨f, hf, rfl⟩ := Option.map_eq_some_iff.1 h
    exact Fleet.moves_of_step hf
  | poll r answered =>
    simp only [next] at h
    split_ifs at h <;> (cases h; exact Fleet.moves_start r)
  | newRound => cases h; exact .pass

theorem Counted.next {m m' : Migration Shard Replica} {l : Label Replica} (h : Counted S m)
    (hi : Inv P m.fleet) (hfits : Fits S m l) (hst : next S m l = some m') : Counted S m' := by
  have hmoves := moves_of_next hst
  intro s hs
  cases l with
  | loop l =>
    obtain ⟨f, -, rfl⟩ := Option.map_eq_some_iff.1 hst
    exact (h s hs).moves hmoves
  | poll r answered =>
    simp only [Migration.next] at hst
    split_ifs at hst <;> cases hst
    · by_cases hr : s = S.home r
      · -- the shard that answers: it has been counted in this very step
        subst hr
        simp only [Function.update_self, Option.some.injEq] at hs
        exact (hi.cleared (Fleet.eq_zero_of_toInt hs hfits)).moves hmoves
      · simp only [Function.update_of_ne hr] at hs
        exact (h s hs).moves hmoves
    · cases hs
  | newRound => cases hst; cases hs

omit [DecidableEq Replica] in
/-- When every shard is cleared, every key is at its new owner only. -/
theorem Inv.moved (h : Inv P f) (hc : ∀ s, Cleared S f s) : Moved P f := by
  intro s k
  split_ifs with hs
  · subst hs
    cases hv : P.content k with
    | none =>
      cases hget : f.get (S.new k) k with
      | none => rfl
      | some v => rw [(h.whole.only _ _ _ hget).1] at hv; cases hv
    | some v =>
      -- a copy at the old owner would still have to move
      rcases h.whole.kept k v hv with hold | hnew
      · by_cases heq : S.new k = S.old k
        · rw [heq]; exact hold
        · rw [hc (S.old k) k rfl heq] at hold; cases hold
      · exact hnew
  · cases hget : f.get s k with
    | none => rfl
    | some v =>
      rcases (h.whole.only s k v hget).2 with rfl | rfl
      · rw [hc _ k rfl (fun hn => hs hn.symm)] at hget; cases hget
      · exact absurd rfl hs

/-- **Migration neither loses nor misplaces a key.**  For all rings and all initial stores: in every
reachable state every key is at its old or its new owner, with its value, and nowhere else; and
whenever every shard has answered 0 in one round, every key is at its new owner only, if no poll of
the run counted a positive multiple of `2 ^ 32` keys. -/
theorem whole_and_moved (P : Placement S) (m : Migration Shard Replica) :
    ((machine S).Reached (start P) m → Whole P m.fleet) ∧
      ((machine S).ReachedBy (Fits S) (start P) m → (∀ s, m.round s = some 0) →
        Moved P m.fleet) := by
  constructor
  · intro h
    exact (h.invariant (I := fun m => Inv P m.fleet) (inv_start P)
      fun _ _ _ hi _ hst => hi.moves (moves_of_next hst)).whole
  · intro h hzero
    have hinv := h.invariant (I := fun m => Inv P m.fleet ∧ Counted S m)
      ⟨inv_start P, fun s hs => by cases hs⟩ fun _ _ _ hi hfits hst =>
        ⟨hi.1.moves (moves_of_next hst), hi.2.next hi.1 hfits hst⟩
    exact hinv.1.moved fun s => hinv.2 s (hzero s)

/-- Two shards with two replicas each; the new ring gives every key but `"b"` to shard `true`. -/
def twoShards : Scale Bool (Bool × Bool) := ⟨fun _ => false, fun k => k != "b", Prod.fst⟩

/-- Two goroutines of shard `false` have both read `"a"`; the `Put` of the first takes effect and
reports an error, the second one moves the key. -/
theorem whole_and_moved_overlapping :
    ∃ (P : Placement twoShards) (m : Migration Bool (Bool × Bool)),
      P.content "a" = some "1" ∧ (machine twoShards).ReachedBy (Fits twoShards) (start P) m ∧
      (∀ s, m.round s = some 0) ∧ Whole P m.fleet ∧ Moved P m.fleet := by
  let P : Placement twoShards :=
    ⟨fun s => if s then ∅ else ((∅ : Contents).insert "b" "2").insert "a" "1", fun s k hk => by
      cases s with
      | false => rfl
      | true => exact absurd rfl hk⟩
  obtain ⟨m, hm, hzero⟩ : ∃ m, (machine twoShards).ReachedBy (Fits twoShards) (start P) m ∧
      ∀ s, m.round s = some 0 :=
    ⟨_, .head (l := .poll (false, false) true) (by unfold Fits; decide) rfl <|
      .head (l := .loop (.read (false, false) "a")) trivial rfl <|
      .head (l := .newRound) trivial rfl <|
      .head (l := .poll (false, true) true) (by unfold Fits; decide) rfl <|
      .head (l := .loop (.read (false, true) "a")) trivial rfl <|
      .head (l := .loop (.send (false, false) .lost)) trivial rfl <|
      .head (l := .loop (.send (false, true) .ok)) trivial rfl <|
      .head (l := .loop (.purge (false, true) .ok)) trivial rfl <|
      .head (l := .newRound) trivial rfl <|
      .head (l := .poll (false, true) true) (by unfold Fits; decide) rfl <|
      .head (l := .poll (true, false) true) (by unfold Fits; decide) rfl .start, by decide⟩
  have hboth := whole_and_moved P m
  exact ⟨P, m, rfl, hm, hzero, hboth.1 (hm.weaken fun _ _ _ => trivial), hboth.2 hm hzero⟩

/-! ### The truncated answer -/

/-- A store with `n` keys. -/
def numbered : ℕ → Contents
  | 0 => ∅
  | n + 1 => (numbered n).insert (toString n) ""

theorem keys_numbered (n : ℕ) : (numbered n).keys = (Finset.range n).image toString := by
  ext k
  rw [Finmap.mem_keys, Finset.mem_image]
  induction n with
  | zero => simp [numbered, Finmap.notMem_empty]
  | succ n ih =>
    rw [numbered, Finmap.mem_insert, ih]
    simp only [Finset.mem_range, Nat.lt_succ_iff_lt_or_eq]
    constructor
    · rintro (rfl | ⟨i, hi, rfl⟩)
      · exact ⟨n, .inr rfl, rfl⟩
      · exact ⟨i, .inl hi, rfl⟩
    · rintro ⟨i, hi | rfl, rfl⟩
      · exact .inr ⟨i, hi, rfl⟩
      · exact .inl rfl

theorem card_keys_numbered (n : ℕ) : (numbered n).keys.card = n := by
  rw [keys_numbered, Finset.card_image_of_injective _ toString_injective, Finset.card_range]

/-- The new ring gives every key of shard `false` to shard `true`. -/
def replaced : Scale Bool Bool := ⟨fun _ => false, fun _ => true, id⟩

/-- Shard `false` has `n` keys. -/
def filled (n : ℕ) : Placement replaced where
  store s := if s then ∅ else numbered n
  placed s k hk := by
    cases s with
    | false => rfl
    | true => exact absurd rfl hk

theorem pendingKeys_filled (n : ℕ) : (start (filled n)).fleet.pendingKeys replaced false = n := by
  have hall : ∀ k ∈ (numbered n).keys, (start (filled n)).fleet.mustMove replaced false k = true :=
    fun _ _ => rfl
  change ((numbered n).keys.filter _).card = n
  rw [Finset.filter_true_of_mem hall, card_keys_numbered]

/-- The first round counts 0 everywhere when the number of keys wraps around. -/
theorem exists_round_filled {n : ℕ} (h : 2 ^ 32 ∣ n) :
    ∃ m, (machine replaced).Reached (start (filled n)) m ∧ (∀ s, m.round s = some 0) ∧
      m.fleet.store = (filled n).store := by
  have hfalse : (start (filled n)).fleet.answer replaced false = 0 := by
    unfold Fleet.answer
    rw [pendingKeys_filled, Int32.toInt_ofNat', ← Int.dvd_iff_bmod_eq_zero]
    exact_mod_cast h
  refine ⟨_, Machine.Reached.of_run [.poll false true, .poll true true] rfl,
    fun s => ?_, rfl⟩
  cases s with
  | false => exact congrArg some hfalse
  | true => rfl

/-- **A shard with `2 ^ 32` keys to move answers 0.**  One shard holds the keys `"0"` to
`"4294967295"`, the new ring gives all of them to the other shard, and the first round already
counts 0 everywhere. -/
theorem not_moved_of_truncation :
    ¬ ∀ (S : Scale Bool Bool) (P : Placement S) (m : Migration Bool Bool),
      (machine S).Reached (start P) m → (∀ s, m.round s = some 0) → Moved P m.fleet := by
  intro h
  -- `n` stays a variable, so that no store of that size is ever computed
  obtain ⟨n, hn⟩ : ∃ n, n = 2 ^ 32 := ⟨_, rfl⟩
  obtain ⟨m, hm, hzero, hstore⟩ := exists_round_filled (n := n) (hn ▸ dvd_rfl)
  have hnone : (numbered n).lookup (toString 0) = none := by
    have hget := h replaced (filled n) m hm hzero false (toString 0)
    unfold Fleet.get at hget
    rw [hstore] at hget
    exact hget
  rw [Finmap.lookup_eq_none, ← Finmap.mem_keys, keys_numbered] at hnone
  exact hnone (Finset.mem_image_of_mem toString (Finset.mem_range.2 (by omega)))

end Migration

end ShardedKvs
