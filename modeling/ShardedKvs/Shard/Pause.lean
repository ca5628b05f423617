import ShardedKvs.Shard.Basic

/-!
# Pausing and resuming writes

`PauseWrites` and `ResumeWrites` go through `KVStore.SetWritesEnabled`, which compares the wanted
value with the flag of `KVStore` and otherwise appends a toggle.  The toggle is applied to the flag
of `KVFsm`.  Nothing ever assigns the flag of `KVStore`: it keeps the `false` of `NewKVStore`
(`Group.FlagUnset`), and everything below follows from that.

* `Group.flag_law_never` : a pause is answered without an entry in the log, and no replica ever
  reads the committed flag.
* `Group.pause_holds` : **the pause holds as long as no client request takes a path without a check
  of the flag**: a client `Delete`, or a client `Put` that reaches the leader directly.  The checked
  path, a `Put` forwarded by a follower, never writes while the shard is paused.  What was past its
  check when `PauseWrites` answered is not held back by anything: a request whose `Apply` has not
  returned, or an entry whose `Apply` has failed and that a later leader may still commit.
* `Group.not_pauseHolds` : a client `Put` that reaches the leader directly is committed while the
  shard is paused.
-/

namespace ShardedKvs

/-- The request has not passed any check. -/
def Point.early {R : Type*} : Point R → Bool
  | .shardRpc _ => true
  | .replicaRpc _ => true
  | _ => false

theorem Point.early_of_appends {R : Type*} {p : Point R} (h : p.appends = true) :
    p.early = false := by
  cases p <;> first | rfl | cases h

namespace Group

variable {R : Type*} [DecidableEq R] {s s' : Group R} {l : Label R}

/-! ### What a step appends -/

/-- An entry is committed, or it may be committed later. -/
def Appended (s : Group R) (e : Logged) : Prop := e ∈ s.log ∨ e ∈ s.late

/-- The entry that a step may append. -/
inductive Appends (s : Group R) : Label R → Logged → Prop
  | request {i : ℕ} {out : Outcome} {t : Task R} :
      s.tasks[i]? = some t → t.point.appends = true → Appends s (.append i out) (logged t.id t.req)
  | purge {r : R} {key : String} {out : Outcome} :
      Appends s (.purge r key out) ⟨.redistribution, .delete key, none⟩
  | enable {r : R} {out : Outcome} : Appends s (.enable r out) ⟨.toggle, .toggle true, none⟩

/-- What a step does to the log and to the late entries: nothing is committed but what the step
appends or what was late, and nothing becomes late but what the step appends. -/
structure Grows (s : Group R) (l : Label R) (s' : Group R) : Prop where
  log : s'.log = s.log ∨ ∃ e, (s.Appends l e ∨ e ∈ s.late) ∧ s'.log = s.log ++ [e]
  late : ∀ e ∈ s'.late, s.Appends l e ∨ e ∈ s.late

omit [DecidableEq R] in
theorem grows_commit {s₁ : Group R} {out : Outcome} {e : Logged} (hlog : s₁.log = s.log)
    (hlate : s₁.late = s.late) (he : s.Appends l e) : s.Grows l (s₁.commit out e) := by
  cases out with
  | ok => exact ⟨.inr ⟨e, .inl he, by rw [← hlog]; rfl⟩, fun e' h => .inr (by rwa [← hlate])⟩
  | failed => exact ⟨.inl hlog, fun e' h => .inr (by rwa [← hlate])⟩
  | lost =>
    refine ⟨.inl hlog, fun e' h => ?_⟩
    rcases List.mem_append.1 h with h | h
    · exact .inr (by rwa [← hlate])
    · rw [List.mem_singleton.1 h]; exact .inl he

theorem Step.grows (h : s.Step l s') : s.Grows l s' := by
  have hframe : ∀ {s' : Group R}, s'.log = s.log → s'.late = s.late → s.Grows l s' :=
    fun hlog hlate => ⟨.inl hlog, fun e he => .inr (by rwa [← hlate])⟩
  cases h with
  | append ht hp => exact grows_commit rfl rfl (.request ht hp)
  | purge => exact grows_commit rfl rfl .purge
  | @enable r out =>
    have hgrow : s.Grows (.enable r out) (s.commit out ⟨.toggle, .toggle true, none⟩) :=
      grows_commit rfl rfl .enable
    split
    · exact ⟨hgrow.log, hgrow.late⟩
    · exact hgrow
  | @settle i committed e he =>
    refine ⟨?_, fun e' he' => .inr (List.mem_of_mem_eraseIdx he')⟩
    cases committed with
    | false => exact .inl rfl
    | true => exact .inr ⟨e, .inr (List.mem_of_getElem? he), rfl⟩
  | _ => exact hframe rfl rfl

omit [DecidableEq R] in
theorem Grows.appended (h : s.Grows l s') {e : Logged} (he : s'.Appended e) :
    s.Appends l e ∨ s.Appended e := by
  rcases he with he | he
  · rcases h.log with hlog | ⟨e', he', hlog⟩ <;> rw [hlog] at he
    · exact .inr (.inl he)
    · rcases List.mem_append.1 he with he | he
      · exact .inr (.inl he)
      · rw [List.mem_singleton.1 he]; exact he'.imp_right .inr
  · exact (h.late e he).imp_right .inr

theorem Step.acks (h : s.Step l s') :
    s'.acks = s.acks ∨ s'.acks = s.acks ++ [.paused s'.committedFlag] ∨
      s'.acks = s.acks ++ [.resumed s'.committedFlag] := by
  cases h with
  | pause => exact .inr (.inl rfl)
  | @enable r out =>
    split
    · refine .inr (.inr ?_)
      simp only [ackResume, acks_commit]
      rfl
    · exact .inl (acks_commit _ _)
  | append => exact .inl (acks_commit _ _)
  | purge => exact .inl (acks_commit _ _)
  | _ => exact .inl rfl

/-! ### The committed flag -/

/-- No toggle disables writes. -/
def TogglesOn (s : Group R) : Prop := ∀ e, s.Appended e → e.entry.pickFlag ≠ some false

omit [DecidableEq R] in
theorem TogglesOn.committedFlag (h : s.TogglesOn) : s.committedFlag = true := by
  apply latest_of_forall_eq
  intro e he x hx
  obtain ⟨e', he', rfl⟩ := List.mem_map.1 he
  cases x with
  | true => rfl
  | false => exact absurd hx (h e' (.inl he'))

omit [DecidableEq R] in
theorem Appends.pickFlag {e : Logged} (h : s.Appends l e) : e.entry.pickFlag ≠ some false := by
  cases h with
  | @request i out t ht hp => rcases t with ⟨_, _ | _, _, _⟩ <;> simp [logged, Request.entry]
  | purge => simp
  | enable => simp

omit [DecidableEq R] in
theorem TogglesOn.grows (h : s.TogglesOn) (hg : s.Grows l s') : s'.TogglesOn := by
  intro e he
  rcases hg.appended he with he | he
  · exact he.pickFlag
  · exact h e he

/-- What the pause and resume calls answer, and what the replicas read, is the committed flag: an
acknowledged pause finds it `false`, an acknowledged resume finds it `true`, and every replica that
has applied the whole log reads it. -/
structure FlagLaw (s : Group R) : Prop where
  paused : ∀ b, .paused b ∈ s.acks → b = false
  resumed : ∀ b, .resumed b ∈ s.acks → b = true
  read : ∀ r, s.applied r = s.log.length → (s.node r).getWritesEnabled = s.committedFlag

/-- In every state: the flags of `KVStore` are unset, the committed flag is `true`, and so it was at
every answer. -/
structure FlagInv (s : Group R) : Prop where
  unset : s.FlagUnset
  on : s.TogglesOn
  acks : ∀ a ∈ s.acks, a = .paused true ∨ a = .resumed true

theorem FlagInv.next (h : s.FlagInv) (hst : s.next l = some s') : s'.FlagInv := by
  have hstep := h.unset.step hst
  have hon := h.on.grows hstep.grows
  refine ⟨h.unset.next hst, hon, fun a ha => ?_⟩
  rcases hstep.acks with hacks | hacks | hacks <;> rw [hacks] at ha
  · exact h.acks a ha
  all_goals
    rcases List.mem_append.1 ha with hmem | hmem
    · exact h.acks a hmem
    · rw [List.mem_singleton.1 hmem, hon.committedFlag]; simp

theorem flagInv_of_run {ls : List (Label R)} (h : (machine R).run (opened R) ls = some s) :
    s.FlagInv :=
  (Machine.Reached.of_run ls h).invariant ⟨flagUnset_opened, by simp [TogglesOn, Appended, opened],
    by simp [opened]⟩ fun _ _ _ hi _ hst => hi.next hst

/-- **No pause is ever replicated, and no replica ever reads the replicated flag.**  In every
history of a shard, every acknowledged pause found the committed flag `true`, every replica reads
another flag than the committed one, and so the law fails, already before the first call; of its
three parts only the one about resumes holds. -/
theorem flag_law_never (r : R) (ls : List (Label R)) (s : Group R)
    (h : (machine R).run (opened R) ls = some s) :
    (∀ b, .paused b ∈ s.acks → b = true) ∧ (∀ b, .resumed b ∈ s.acks → b = true) ∧
      (∀ r, (s.node r).getWritesEnabled ≠ s.committedFlag) ∧
      ¬ ∀ p, p <+: ls → ∀ s', (machine R).run (opened R) p = some s' → s'.FlagLaw := by
  have hi := flagInv_of_run h
  refine ⟨fun b hb => ?_, fun b hb => ?_, fun r => ?_, fun hlaw => ?_⟩
  · rcases hi.acks _ hb with hb | hb <;> cases hb; rfl
  · rcases hi.acks _ hb with hb | hb <;> cases hb; rfl
  · rw [hi.on.committedFlag, Node.getWritesEnabled, hi.unset r]; simp
  · have hread := (hlaw [] List.nil_prefix _ rfl).read r rfl
    exact Bool.false_ne_true hread

theorem flag_law_never_pause_resume :
    ∃ s, (machine Bool).run (opened Bool)
        [.lead true true, .pause true true .ok, .resume, .enable true .ok, .apply false] = some s ∧
      s.acks = [.paused true, .resumed true] ∧
      (s.node false).getWritesEnabled ≠ s.committedFlag := by
  obtain ⟨s, hs, hacks⟩ : ∃ s, (machine Bool).run (opened Bool)
      [.lead true true, .pause true true .ok, .resume, .enable true .ok, .apply false] = some s ∧
      s.acks = [.paused true, .resumed true] := ⟨_, rfl, rfl⟩
  exact ⟨s, hs, hacks, (flag_law_never true _ s hs).2.2.1 false⟩

/-- **An acknowledged pause without a toggle.**  The leader answers `IsPaused = true` while the
committed flag is still `true`. -/
theorem not_flagLaw_of_pause :
    ¬ ∀ (ls : List (Label Bool)) (s : Group Bool),
      (machine Bool).run (opened Bool) ls = some s → s.FlagLaw := by
  intro h
  have hlaw := h [.lead true true, .pause true true .ok] _ rfl
  exact absurd (hlaw.paused true (by decide)) (by decide)

/-! ### The pause -/

/-- While the shard is paused, no entry issued by a client request is committed. -/
def PauseHolds (s : Group R) : Prop :=
  ∀ n, s.pausedAt = some n → ∀ e ∈ s.log.drop n, e.origin ≠ .client

/-- No client request is past its check while its `raft.Apply` has not returned. -/
def NoClientInside (s : Group R) : Prop :=
  ∀ t ∈ s.tasks, t.req.isClient = true → t.point.early = true

/-- No entry of a client request can still be committed. -/
def NoClientLate (s : Group R) : Prop := ∀ e ∈ s.late, e.origin ≠ .client

/-- The step lets no client request past an unchecked path of a paused shard: no client request
is served by a leader that it reached directly, and no client `Delete` is served at all.  When
`PauseWrites` answers, no client request is past its check while its `raft.Apply` has not returned,
and no client entry whose `Apply` has failed can still be committed. -/
def Guarded (s : Group R) : Label R → Prop
  | .check i _ => s.pausedAt ≠ none → ∀ t, s.tasks[i]? = some t →
    match t.req, t.point with
    | req, .shardRpc r => s.isLeader r = true → req.isClient = false
    | .delete _, .replicaRpc _ => False
    | _, _ => True
  | .pause _ newShards _ => newShards = true → s.NoClientInside ∧ s.NoClientLate
  | _ => True

omit [DecidableEq R] in
/-- A guarded check lets no client request in: the unchecked paths are excluded, and the checked
one finds the flag unset. -/
theorem Passes.early {t : Task R} {p : Point R} {i : ℕ} {hint : Option R} (h : s.Passes t p)
    (hu : s.FlagUnset) (ht : s.tasks[i]? = some t) (hp : s.pausedAt ≠ none)
    (hg : s.Guarded (.check i hint)) (hin : t.req.isClient = true → t.point.early = true)
    (hc : t.req.isClient = true) : p.early = true := by
  have hguard := hg hp t ht
  cases h with
  | lead hpoint hl =>
    rw [hpoint] at hguard
    exact absurd (hguard hl) (by simp [hc])
  | forward => rfl
  | @put k v isRedistribution r hreq hpoint hflag =>
    -- the flag is unset, so a `Put` that passes is a redistribution
    have hredis : isRedistribution = true := by
      simpa [Node.getWritesEnabled, hu r] using hflag
    simp [hreq, Request.isClient, hredis] at hc
  | delete hreq hpoint =>
    rw [hreq, hpoint] at hguard
    exact hguard.elim
  | set hpoint =>
    have hearly := hin hc
    rw [hpoint] at hearly
    cases hearly

omit [DecidableEq R] in
theorem NoClientInside.set (h : s.NoClientInside) {i : ℕ} {t : Task R}
    (hp : t.req.isClient = true → t.point.early = true) :
    ∀ u ∈ s.tasks.set i t, u.req.isClient = true → u.point.early = true := by
  intro u hu hc
  rcases List.mem_or_eq_of_mem_set hu with hmem | rfl
  · exact h u hmem hc
  · exact hp hc

omit [DecidableEq R] in
theorem NoClientInside.reply (h : s.NoClientInside) (i : ℕ) (t : Task R)
    (res : Except RpcError Unit) : (s.reply i t res).NoClientInside :=
  fun u hu hc => h u (List.mem_of_mem_eraseIdx hu) hc

theorem NoClientInside.step (h : s.NoClientInside) (hu : s.FlagUnset) (hp : s.pausedAt ≠ none)
    (hg : s.Guarded l) (hst : s.Step l s') : s'.NoClientInside := by
  cases hst with
  | arrive r req =>
    intro t ht hc
    rcases List.mem_append.1 ht with hmem | hmem
    · exact h t hmem hc
    · rw [List.mem_singleton.1 hmem]; rfl
  | pass ht hpass =>
    exact h.set (hpass.early hu ht hp hg (h _ (List.mem_of_getElem? ht)))
  | forward ht => exact h.set fun _ => rfl
  | refuse ht => exact h.reply _ _ _
  | append ht =>
    unfold NoClientInside
    rw [tasks_commit]
    exact h.reply _ _ _
  | @cut i t ht => exact h.set (h t (List.mem_of_getElem? ht))
  | purge => unfold NoClientInside; rwa [tasks_commit]
  | enable =>
    unfold NoClientInside
    split
    · simp only [ackResume, tasks_commit]; exact h
    · rwa [tasks_commit]
  | _ => exact h

omit [DecidableEq R] in
/-- On a paused shard no step appends an entry that a client issued. -/
theorem NoClientInside.origin_ne (h : s.NoClientInside) {e : Logged} (he : s.Appends l e) :
    e.origin ≠ .client := by
  cases he with
  | @request i out t ht hp =>
    have hc : t.req.isClient ≠ true := fun hc => by
      have hearly := h t (List.mem_of_getElem? ht) hc
      rw [Point.early_of_appends hp] at hearly
      cases hearly
    simp [logged, originOf, hc]
  | purge => simp
  | enable => simp

theorem Step.pausedAt (h : s.Step l s') :
    s'.pausedAt = s.pausedAt ∨ s'.pausedAt = none ∨ (∃ r out, l = .pause r true out) ∧
      s' = s.ackPause := by
  cases h with
  | @pause r out => exact .inr (.inr ⟨⟨r, out, rfl⟩, rfl⟩)
  | resume => exact .inr (.inl rfl)
  | append => exact .inl (pausedAt_commit _ _)
  | purge => exact .inl (pausedAt_commit _ _)
  | enable =>
    refine .inl ?_
    split
    · simp only [ackResume, pausedAt_commit]
    · exact pausedAt_commit _ _
  | _ => exact .inl rfl

/-- The invariant behind the pause. -/
structure PauseInv (s : Group R) : Prop where
  unset : s.FlagUnset
  inside : s.pausedAt ≠ none → s.NoClientInside
  late : s.pausedAt ≠ none → s.NoClientLate
  holds : s.PauseHolds

omit [DecidableEq R] in
theorem PauseHolds.grows (h : s.PauseHolds) (hg : s.Grows l s')
    (hin : s.pausedAt ≠ none → s.NoClientInside) (hlate : s.pausedAt ≠ none → s.NoClientLate) :
    ∀ n, s.pausedAt = some n → ∀ e ∈ s'.log.drop n, e.origin ≠ .client := by
  intro n hn e he
  have hp : s.pausedAt ≠ none := by rw [hn]; simp
  rcases hg.log with hlog | ⟨e', he', hlog⟩ <;> rw [hlog] at he
  · exact h n hn e he
  · rw [List.drop_append, List.mem_append] at he
    rcases he with hmem | hmem
    · exact h n hn e hmem
    · rw [List.mem_singleton.1 (List.mem_of_mem_drop hmem)]
      exact he'.elim (hin hp).origin_ne (hlate hp e')

theorem PauseInv.next (h : s.PauseInv) (hg : s.Guarded l) (hst : s.next l = some s') :
    s'.PauseInv := by
  have hunset := h.unset.next hst
  have hstep := h.unset.step hst
  have hgrow := hstep.grows
  rcases hstep.pausedAt with hpa | hpa | ⟨⟨r, out, rfl⟩, rfl⟩
  · refine ⟨hunset, fun hp => ?_, fun hp e he => ?_, ?_⟩
    · rw [hpa] at hp
      exact (h.inside hp).step h.unset hp hg hstep
    · rw [hpa] at hp
      exact (hgrow.late e he).elim (h.inside hp).origin_ne (h.late hp e)
    · unfold PauseHolds
      rw [hpa]
      exact h.holds.grows hgrow h.inside h.late
  · exact ⟨hunset, fun hp => absurd hpa hp, fun hp => absurd hpa hp,
      fun n hn => by rw [hpa] at hn; cases hn⟩
  · refine ⟨hunset, fun _ => (hg rfl).1, fun _ => (hg rfl).2, fun n hn e he => ?_⟩
    -- nothing has been committed since the answer
    obtain rfl := Option.some.inj hn
    simp [ackPause] at he

/-- **The pause holds as long as no client request takes an unchecked path.**  In every run of a
shard whose steps are all guarded, no entry issued by a client is committed from the answer of a
`PauseWrites` to the start of the next `ResumeWrites`, whatever requests arrive, are forwarded and
rejected, whoever leads, and whatever entries of failed calls are committed late. -/
theorem pause_holds (s : Group R) (h : (machine R).ReachedBy Guarded (opened R) s) :
    s.PauseHolds :=
  (h.invariant (I := PauseInv) ⟨flagUnset_opened, by simp [opened], by simp [opened],
    by simp [PauseHolds, opened]⟩ fun _ _ _ hi hg hst => hi.next hg hst).holds

/-- On a paused shard a `Put` that a follower forwards is rejected, and a redistribution `Put` is
committed, although its `Apply` has failed. -/
theorem pause_holds_forwarded :
    ∃ s, (machine Bool).ReachedBy Guarded (opened Bool) s ∧ s.pausedAt = some 0 ∧
      s.replies = [⟨0, .put "k" "v" false, .error .writesDisabled⟩,
        ⟨1, .put "x" "y" true, .error .apply⟩] ∧
      s.log.map Logged.entry = [.set "x" "y"] ∧ s.PauseHolds := by
  have h : ∃ s, (machine Bool).ReachedBy Guarded (opened Bool) s ∧ s.pausedAt = some 0 ∧
      s.replies = [⟨0, .put "k" "v" false, .error .writesDisabled⟩,
        ⟨1, .put "x" "y" true, .error .apply⟩] ∧
      s.log.map Logged.entry = [.set "x" "y"] :=
    ⟨_, .head (l := .lead true true) trivial rfl <|
      .head (l := .pause true true .ok)
        (fun _ => ⟨fun t ht => (by cases ht), fun e he => (by cases he)⟩) rfl <|
      .head (l := .arrive false (.put "k" "v" false)) trivial rfl <|
      .head (l := .check 0 (some true)) (fun _ t ht => by cases ht; intro hl; cases hl) rfl <|
      .head (l := .check 0 none) (fun _ t ht => by cases ht; exact trivial) rfl <|
      .head (l := .arrive true (.put "x" "y" true)) trivial rfl <|
      .head (l := .check 0 none) (fun _ t ht => by cases ht; intro _; rfl) rfl <|
      .head (l := .append 0 .lost) trivial rfl <|
      .head (l := .settle 0 true) trivial rfl .start, rfl, rfl, rfl⟩
  obtain ⟨s, hs, hp, hr, hl⟩ := h
  exact ⟨s, hs, hp, hr, hl, pause_holds s hs⟩

/-- **A client `Put` that reaches the leader directly ignores the pause.** -/
theorem not_pauseHolds :
    ¬ ∀ s, (machine Bool).Reached (opened Bool) s → s.PauseHolds := by
  intro h
  have hs := h _ (Machine.Reached.of_run [.lead true true, .pause true true .ok,
    .arrive true (.put "k" "v" false), .check 0 none, .append 0 .ok] rfl)
  exact hs 0 rfl ⟨.client, .set "k" "v", some 0⟩ List.mem_cons_self rfl

end Group

end ShardedKvs
