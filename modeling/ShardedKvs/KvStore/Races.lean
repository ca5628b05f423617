import ShardedKvs.KvStore.Progress

/-!
# Reads and writes of the map

The handlers read the map under the mutex of `KVStore`, or under none (a range over `Keys`);
`Persist` reads it under none; and `Apply` writes it under the mutex of `KVFsm`.  A map of Go may
not be read and written at the same time.

* `Locks.Numbered` : every map in use has been made; the map of a restored snapshot is new.
* `Locks.Reading`, `Locks.Writing`, `Locks.Races` : who is about to access a map.
* `Locks.races_iff` : **a reader can be met by a write of the state machine exactly when the two
  share the map**.  A handler does until a snapshot is restored for the first time, and `Persist`
  until one is restored while it runs.
-/

namespace ShardedKvs

namespace Locks

variable {s s' : Locks} {i : ℕ} {r r' : Routine}

/-- The maps in use, and how many have been made. -/
def maps (s : Locks) : ℕ × ℕ × Option ℕ × ℕ := (s.store, s.fsmStore, s.persisting, s.made)

theorem maps_of_stepFsm (h : s.stepFsm = some s') : s'.maps = s.maps := by
  rcases stepFsm_cases h with ⟨e, answer, rest, -, -, rfl⟩ | ⟨e, answer, -, rfl⟩ |
    ⟨answer, -, hrest, -⟩
  · rfl
  · rfl
  · exact (congrArg maps hrest :)

theorem maps_cases {l : Label} (h : s.next l = some s') :
    s'.maps = s.maps ∨
      (l = .restore ∧ s'.maps = (s.store, s.made, s.persisting, s.made + 1)) ∨
      (l = .snapshot ∧ s.persisting = none ∧
        s'.maps = (s.store, s.fsmStore, some s.fsmStore, s.made)) ∨
      (l = .persisted ∧ s'.maps = (s.store, s.fsmStore, none, s.made)) := by
  rcases rest_cases h with hrest | ⟨-, hfsm⟩ | ⟨hl, -, rfl⟩ | ⟨hl, -, hnone, rfl⟩ | ⟨hl, rfl⟩
  · exact .inl (congrArg maps hrest :)
  · exact .inl (maps_of_stepFsm hfsm)
  · exact .inr (.inl ⟨hl, rfl⟩)
  · exact .inr (.inr (.inl ⟨hl, hnone, rfl⟩))
  · exact .inr (.inr (.inr ⟨hl, rfl⟩))

/-- A handler ranges over the map that `KVStore` had when `Keys` was called. -/
theorem ranging_of_next {l : Label} (h : s.next l = some s') (hi : s'.routines[i]? = some r') :
    r'.ranging = none ∨ r'.ranging = some s.store ∨
      ∃ r, s.routines[i]? = some r ∧ r'.ranging = r.ranging := by
  rcases next_cases h with ⟨j, r₁, r₂, ha⟩ | ⟨calls, hroutines, -⟩ | ⟨hroutines, -⟩
  · rw [ha.getElem?] at hi
    split_ifs at hi with hij
    · cases hi
      subst hij
      rcases ha.ranging with hsame | hstore
      · exact .inr (.inr ⟨r₁, ha.before, hsame⟩)
      · exact .inr (.inl hstore)
    · exact .inr (.inr ⟨r', hi, rfl⟩)
  · rw [hroutines, List.getElem?_append] at hi
    split_ifs at hi with hlt
    · exact .inr (.inr ⟨r', hi, rfl⟩)
    · cases hk : i - s.routines.length <;> rw [hk] at hi <;> cases hi
      exact .inl rfl
  · rw [hroutines] at hi
    exact .inr (.inr ⟨r', hi, rfl⟩)

/-- Every map in use has been made. -/
structure Numbered (s : Locks) : Prop where
  store : s.store < s.made
  fsmStore : s.fsmStore < s.made
  persisting : ∀ m, s.persisting = some m → m < s.made
  ranging : ∀ (i : ℕ) (r : Routine) m, s.routines[i]? = some r → r.ranging = some m → m < s.made

theorem Numbered.next {l : Label} (h : s.Numbered) (hst : s.next l = some s') : s'.Numbered := by
  have hranging : ∀ (i : ℕ) (r : Routine) m, s'.routines[i]? = some r → r.ranging = some m →
      m < s.made := by
    intro i r m hi hm
    rcases ranging_of_next hst hi with hnone | hstore | ⟨r₀, hr₀, hsame⟩
    · rw [hnone] at hm
      cases hm
    · rw [hstore] at hm
      cases hm
      exact h.store
    · exact h.ranging i r₀ m hr₀ (hsame ▸ hm)
  have hstore := h.store
  have hfsmStore := h.fsmStore
  rcases maps_cases hst with hmaps | ⟨-, hmaps⟩ | ⟨-, -, hmaps⟩ | ⟨-, hmaps⟩ <;>
    simp only [maps, Prod.mk.injEq] at hmaps <;> obtain ⟨h₁, h₂, h₃, h₄⟩ := hmaps
  · exact ⟨h₁ ▸ h₄ ▸ hstore, h₂ ▸ h₄ ▸ hfsmStore, h₃ ▸ h₄ ▸ h.persisting, h₄ ▸ hranging⟩
  · refine ⟨by omega, by omega, fun m hm => ?_, fun i r m hi hm => ?_⟩
    · have hlt := h.persisting m (h₃ ▸ hm)
      omega
    · have hlt := hranging i r m hi hm
      omega
  · refine ⟨by omega, by omega, fun m hm => ?_, h₄ ▸ hranging⟩
    rw [h₃] at hm
    cases hm
    omega
  · refine ⟨by omega, by omega, fun m hm => ?_, h₄ ▸ hranging⟩
    rw [h₃] at hm
    cases hm

theorem Numbered.of_reached (h : machine.Reached opened s) : s.Numbered := by
  refine h.invariant (I := Numbered) ⟨?_, ?_, ?_, ?_⟩ fun _ _ _ hnumbered _ hst =>
    hnumbered.next hst <;> simp [opened]

/-- What is about to read the map `m`: a handler in `Get` or in a range over `Keys`, or `Persist`
(`none`). -/
def Reading (s : Locks) (m : ℕ) : Option ℕ → Prop
  | none => s.persisting = some m
  | some i => ∃ r, s.routines[i]? = some r ∧
      ((r.calls.head? = some .get ∧ r.stage = .locked ∧ s.store = m) ∨
        (r.calls.head? = some .nextKey ∧ r.stage = .start ∧ r.ranging = some m))

/-- The state machine is about to write the map `m`. -/
def Writing (s : Locks) (m : ℕ) : Prop :=
  ∃ e answer, s.fsm = .locked e answer ∧ (e.operation = SET ∨ e.operation = DELETE) ∧ s.fsmStore = m

/-- A read and a write of the same map, with nothing between them: Go stops the process when it
notices. -/
def Races (s : Locks) (reader : Option ℕ) : Prop := ∃ m, s.Reading m reader ∧ s.Writing m

/-- The steps of Raft and of the state machine. -/
def Label.ofRaft : Label → Bool
  | .commit _ | .fail _ | .deliver _ | .fsm | .restore | .snapshot => true
  | _ => false

variable {m : ℕ} {reader : Option ℕ}

theorem Numbered.lt_of_reading (h : s.Numbered) (hr : s.Reading m reader) : m < s.made := by
  cases reader with
  | none => exact h.persisting m hr
  | some i =>
    obtain ⟨r, hi, ⟨-, -, rfl⟩ | ⟨-, -, hm⟩⟩ := hr
    · exact h.store
    · exact h.ranging i r m hi hm

theorem Reading.eq {m' : ℕ} (h : s.Reading m reader) (h' : s.Reading m' reader) : m = m' := by
  cases reader with
  | none => exact Option.some.inj (h.symm.trans h')
  | some i =>
    obtain ⟨r, hi, hr⟩ := h
    obtain ⟨r', hi', hr'⟩ := h'
    cases hi.symm.trans hi'
    rcases hr with ⟨-, hst, rfl⟩ | ⟨-, hst, hm⟩ <;> rcases hr' with ⟨-, hst', hm'⟩ | ⟨-, hst', hm'⟩
    · exact hm'
    · rw [hst] at hst'
      cases hst'
    · rw [hst] at hst'
      cases hst'
    · exact Option.some.inj (hm.symm.trans hm')

/-- Raft moves only the handlers that wait for it. -/
theorem routine_of_raft {l : Label} (hl : l.ofRaft = true) (h : s.next l = some s')
    (hi : s.routines[i]? = some r) (hr : r.stage = .start ∨ r.stage = .locked) :
    s'.routines[i]? = some r := by
  have hother : ∀ {j r₁ r₂}, Advances s s' j r₁ r₂ → r₁.stage ≠ .start → r₁.stage ≠ .locked →
      s'.routines[i]? = some r := by
    intro j r₁ r₂ ha hstart hlocked
    rw [ha.getElem?]
    split_ifs with hij
    · subst hij
      cases ha.before.symm.trans hi
      exact (hr.elim hstart hlocked).elim
    · exact hi
  cases l with
  | commit j =>
    obtain ⟨c, cs, ranging, e, ha, -⟩ := advances_of_stepCommit h
    exact hother ha (by simp) (by simp)
  | fail j =>
    obtain ⟨c, cs, st, ranging, hst, ha, -⟩ := advances_of_stepFail h
    rcases hst with ⟨e, rfl⟩ | rfl <;> exact hother ha (by simp) (by simp)
  | deliver e => cases h; exact hi
  | fsm =>
    rcases stepFsm_cases h with ⟨e, answer, rest, -, -, rfl⟩ | ⟨e, answer, -, rfl⟩ |
      ⟨answer, -, -, ⟨hroutines, -⟩ | ⟨j, c, cs, ranging, -, ha⟩⟩
    · exact hi
    · exact hi
    · rw [hroutines]
      exact hi
    · exact hother ha (by simp) (by simp)
  | restore | snapshot =>
    simp only [Locks.next] at h
    split at h <;> cases h
    exact hi
  | call | go | persisted => cases hl

theorem Reading.next {l : Label} (h : s.Reading m reader) (hl : l.ofRaft = true)
    (hst : s.next l = some s') : s'.Reading m reader := by
  have hmaps := maps_cases hst
  cases reader with
  | none =>
    have h : s.persisting = some m := h
    show s'.persisting = some m
    rcases hmaps with hmaps | ⟨-, hmaps⟩ | ⟨-, hnone, -⟩ | ⟨rfl, -⟩
    · simp only [maps, Prod.mk.injEq] at hmaps
      rw [hmaps.2.2.1, h]
    · simp only [maps, Prod.mk.injEq] at hmaps
      rw [hmaps.2.2.1, h]
    · rw [hnone] at h
      cases h
    · cases hl
  | some i =>
    obtain ⟨r, hi, hr⟩ := h
    have hstore : s'.store = s.store := by
      rcases hmaps with hmaps | ⟨-, hmaps⟩ | ⟨-, -, hmaps⟩ | ⟨-, hmaps⟩ <;>
        exact (congrArg Prod.fst hmaps :)
    refine ⟨r, routine_of_raft hl hst hi ?_, by rwa [hstore]⟩
    exact hr.elim (fun h => .inr h.2.1) fun h => .inl h.2.1

/-- The state machine works off its queue under a reader. -/
theorem exists_idle (hfree : s.FsmFree) (hr : s.Reading m reader) :
    ∃ s', machine.ReachedBy (fun _ l => l.ofRaft = true) s s' ∧ s'.FsmFree ∧ s'.fsm = .idle ∧
      s'.pending = [] ∧ s'.Reading m reader ∧ s'.fsmStore = s.fsmStore := by
  induction hn : s.rank using Nat.strong_induction_on generalizing s with
  | _ n ih =>
    cases hfsm : s.stepFsm with
    | none =>
      obtain ⟨hidle, hpending⟩ := hfree.idle_of_stuck hfsm
      exact ⟨s, .start, hfree, hidle, hpending, hr, rfl⟩
    | some s₁ =>
      have hst : s.next .fsm = some s₁ := hfsm
      obtain ⟨s', hs', hfree', hidle, hpending, hr', hstore⟩ :=
        ih s₁.rank (hn ▸ rank_lt_of_next rfl hst) (hfree.next hst) (hr.next rfl hst) rfl
      have hmaps := maps_of_stepFsm hfsm
      simp only [maps, Prod.mk.injEq] at hmaps
      exact ⟨s', .head (l := .fsm) rfl hst hs', hfree', hidle, hpending, hr',
        hstore.trans hmaps.2.1⟩

theorem exists_races_iff (h : machine.Reached opened s) (hr : s.Reading m reader) :
    (∃ s', machine.ReachedBy (fun _ l => l.ofRaft = true) s s' ∧ s'.Races reader) ↔
      s.fsmStore = m := by
  constructor
  · rintro ⟨s', hs', m', hr', -, -, -, -, hstore'⟩
    by_contra hne
    have hkept : s'.Reading m reader ∧ m < s'.made ∧ s'.fsmStore ≠ m := by
      refine hs'.invariant (I := fun s => s.Reading m reader ∧ m < s.made ∧ s.fsmStore ≠ m)
        ⟨hr, (Numbered.of_reached h).lt_of_reading hr, hne⟩ ?_
      rintro s l s' ⟨hr, hlt, hne⟩ hl hst
      refine ⟨hr.next hl hst, ?_⟩
      rcases maps_cases hst with hmaps | ⟨-, hmaps⟩ | ⟨-, -, hmaps⟩ | ⟨-, hmaps⟩ <;>
        simp only [maps, Prod.mk.injEq] at hmaps <;> omega
    exact hkept.2.2 (hstore'.trans (hr'.eq hkept.1))
  · rintro rfl
    obtain ⟨s₁, hs₁, hfree, hidle, hpending, hr₁, hstore⟩ := exists_idle (.of_reached h) hr
    -- an entry of another replica, and the state machine takes it
    have hdeliver : s₁.next (.deliver (.set "" "")) =
        some { s₁ with pending := [(.set "" "", none)] } := by
      simp [Locks.next, hpending]
    have hfsm : { s₁ with pending := [(KVFSMLogEntry.set "" "", none)] }.next .fsm =
        some { s₁ with fsmMutex := true, fsm := .locked (.set "" "") none, pending := [] } := by
      simp [Locks.next, stepFsm, hidle, hfree hidle]
    refine ⟨_, .step (l := .fsm) (.step (l := .deliver _) hs₁ rfl hdeliver) rfl hfsm,
      s.fsmStore, ?_, ?_⟩
    · exact (hr₁.next rfl hdeliver).next rfl hfsm
    · exact ⟨_, _, rfl, .inl rfl, hstore⟩

/-! ### Until a snapshot is restored -/

/-- The label starts a `Persist`. -/
def Label.isSnapshot : Label → Bool
  | .snapshot => true
  | _ => false

/-- The steps during which a reader may have lost its map: a handler has that of the start,
`Persist` that of the last `Snapshot`. -/
def since (ls : List Label) : Option ℕ → List Label
  | some _ => ls
  | none => ls.reverse.takeWhile fun l => !l.isSnapshot

/-- Which map everybody has after a run. -/
structure Aged (ls : List Label) (s : Locks) : Prop where
  numbered : s.Numbered
  store : s.store = 0
  ranging : ∀ (i : ℕ) (r : Routine) m, s.routines[i]? = some r → r.ranging = some m → m = 0
  fsmStore : s.fsmStore = 0 ↔ .restore ∉ ls
  persisting : ∀ m, s.persisting = some m → (s.fsmStore = m ↔ .restore ∉ since ls none)

theorem since_append (ls : List Label) {l : Label} (hl : l.isSnapshot = false) :
    since (ls ++ [l]) none = l :: since ls none := by
  simp [since, hl]

/-- A step that leaves the maps is neither a `Restore` nor a `Snapshot`. -/
theorem ne_of_maps {l : Label} (h : s.next l = some s') (hmaps : s'.maps = s.maps) :
    l ≠ .restore ∧ l.isSnapshot = false := by
  simp only [maps, Prod.mk.injEq] at hmaps
  obtain ⟨-, -, hpersisting, hmade⟩ := hmaps
  cases l with
  | restore =>
    simp only [Locks.next] at h
    split at h <;> cases h
    exact absurd hmade (Nat.succ_ne_self _)
  | snapshot =>
    simp only [Locks.next] at h
    split at h <;> cases h
    rename_i hnone
    rw [hnone] at hpersisting
    cases hpersisting
  | call | go | commit | fail | deliver | fsm | persisted => exact ⟨Label.noConfusion, rfl⟩

theorem Aged.ranging_next {ls : List Label} {l : Label} (h : Aged ls s)
    (hst : s.next l = some s') {i : ℕ} {r : Routine} (hi : s'.routines[i]? = some r)
    (hm : r.ranging = some m) : m = 0 := by
  rcases ranging_of_next hst hi with hnone | hstore | ⟨r₀, hr₀, hsame⟩
  · rw [hnone] at hm
    cases hm
  · rw [hstore, h.store] at hm
    exact (Option.some.inj hm).symm
  · exact h.ranging i r₀ m hr₀ (hsame ▸ hm)

theorem Aged.next {ls : List Label} {l : Label} (h : Aged ls s) (hst : s.next l = some s') :
    Aged (ls ++ [l]) s' := by
  have hranging := fun i r m hi => h.ranging_next (i := i) (r := r) (m := m) hst hi
  have hmade := h.numbered.fsmStore
  rcases maps_cases hst with hmaps | ⟨rfl, hmaps⟩ | ⟨rfl, -, hmaps⟩ | ⟨rfl, hmaps⟩
  · obtain ⟨hl, hl'⟩ := ne_of_maps hst hmaps
    simp only [maps, Prod.mk.injEq] at hmaps
    obtain ⟨h₁, h₂, h₃, -⟩ := hmaps
    refine ⟨h.numbered.next hst, h₁.trans h.store, hranging, ?_, fun m hm => ?_⟩
    · rw [h₂, h.fsmStore]
      simp [hl.symm]
    · rw [h₂, h.persisting m (h₃ ▸ hm), since_append ls hl']
      simp [hl.symm]
  · -- the state machine has a map that nobody else has
    simp only [maps, Prod.mk.injEq] at hmaps
    obtain ⟨h₁, h₂, h₃, -⟩ := hmaps
    refine ⟨h.numbered.next hst, h₁.trans h.store, hranging, ?_, fun m hm => ?_⟩
    · rw [h₂]
      exact iff_of_false (by omega) (by simp)
    · have hlt := h.numbered.persisting m (h₃ ▸ hm)
      rw [h₂, since_append ls rfl]
      exact iff_of_false (by omega) (by simp)
  · simp only [maps, Prod.mk.injEq] at hmaps
    obtain ⟨h₁, h₂, h₃, -⟩ := hmaps
    refine ⟨h.numbered.next hst, h₁.trans h.store, hranging, ?_, fun m hm => ?_⟩
    · rw [h₂, h.fsmStore]
      simp
    · rw [h₃] at hm
      cases hm
      simp [since, Label.isSnapshot, h₂]
  · simp only [maps, Prod.mk.injEq] at hmaps
    obtain ⟨h₁, h₂, h₃, -⟩ := hmaps
    refine ⟨h.numbered.next hst, h₁.trans h.store, hranging, ?_, fun m hm => ?_⟩
    · rw [h₂, h.fsmStore]
      simp
    · rw [h₃] at hm
      cases hm

theorem Aged.of_run {ls : List Label} (h : machine.run opened ls = some s) : Aged ls s := by
  induction ls using List.reverseRecOn generalizing s with
  | nil =>
    cases h
    exact ⟨.of_reached .start, rfl, by simp [opened], by simp [opened], by simp [opened]⟩
  | append_singleton ls l ih =>
    rw [Machine.run_append, Option.bind_eq_some_iff] at h
    obtain ⟨s₁, h₁, h₂⟩ := h
    rw [Machine.run_cons, Option.bind_eq_some_iff] at h₂
    obtain ⟨s₂, hnext, hs⟩ := h₂
    cases hs
    exact (ih h₁).next hnext

theorem Aged.fsmStore_iff {ls : List Label} (h : Aged ls s) (hr : s.Reading m reader) :
    s.fsmStore = m ↔ .restore ∉ since ls reader := by
  cases reader with
  | none => exact h.persisting m hr
  | some i =>
    have hm : m = 0 := by
      obtain ⟨r, hi, ⟨-, -, rfl⟩ | ⟨-, -, hm⟩⟩ := hr
      · exact h.store
      · exact h.ranging i r m hi hm
    rw [hm]
    exact h.fsmStore

/-- **A reader is safe exactly when the state machine has another map.**  The two mutexes do not
keep a read of the map and a write apart: while the state machine has the map that a `Get` (which
holds the mutex of `KVStore`), a range over `Keys` or `Persist` is about to read, Raft can bring it
to the point where it is about to write that map.  It has that map until a snapshot is restored: for
a handler the first one of the process, for `Persist` the first one since it has been started. -/
theorem races_iff {ls : List Label} (h : machine.run opened ls = some s)
    (hr : s.Reading m reader) :
    ((∃ s', machine.ReachedBy (fun _ l => l.ofRaft = true) s s' ∧ s'.Races reader) ↔
        s.fsmStore = m) ∧ (s.fsmStore = m ↔ .restore ∉ since ls reader) :=
  ⟨exists_races_iff (.of_run ls h) hr, (Aged.of_run h).fsmStore_iff hr⟩

/-- A `Get` that holds its mutex can meet a write; after a restored snapshot it cannot. -/
theorem races_iff_get :
    (∃ s', machine.ReachedBy (fun _ l => l.ofRaft = true) (after [.call [.get], .go 0 true]) s' ∧
      s'.Races (some 0)) ∧
    ¬ ∃ s', machine.ReachedBy (fun _ l => l.ofRaft = true)
      (after [.restore, .call [.get], .go 0 true]) s' ∧ s'.Races (some 0) := by
  have hread : (after [.call [.get], .go 0 true]).Reading 0 (some 0) :=
    ⟨_, rfl, .inl ⟨rfl, rfl, rfl⟩⟩
  have hread' : (after [.restore, .call [.get], .go 0 true]).Reading 0 (some 0) :=
    ⟨_, rfl, .inl ⟨rfl, rfl, rfl⟩⟩
  have hrun : machine.run opened [.call [.get], .go 0 true] = some _ := rfl
  have hrun' : machine.run opened [.restore, .call [.get], .go 0 true] = some _ := rfl
  have hmeets := races_iff hrun hread
  have hsafe := races_iff hrun' hread'
  refine ⟨hmeets.1.2 (hmeets.2.2 (by simp [since])), fun hrace => ?_⟩
  exact hsafe.2.1 (hsafe.1.1 hrace) (by simp [since])

end Locks

end ShardedKvs
