import ShardedKvs.KvStore.Locks

/-!
# All calls of a handler end

`SetWritesEnabled` holds the mutex of `KVStore` while it waits for the state machine to apply its
entry.  This is not a deadlock, because the state machine has a mutex of its own.

* `Locks.Answered` : a call whose entry is committed is in the queue of the state machine.
* `Locks.rank` : a bound on the steps that are left.
* `Locks.calls_end` : **no deadlock**: without new requests all calls return within a bounded number
  of steps, and both mutexes are free then.
-/

namespace ShardedKvs

namespace Locks

variable {s s' : Locks} {i : ℕ} {r r' : Routine}

/-- Those who wait for the state machine, in the order of their answers. -/
def answers (s : Locks) : List (Option (ℕ × ℕ)) := s.fsm.answers ++ s.pending.map Prod.snd

/-- A call that waits for the state machine will be answered. -/
def Answered (s : Locks) : Prop :=
  ∀ i c cs ranging, s.routines[i]? = some ⟨c :: cs, .committed, ranging⟩ →
    some (i, cs.length + 1) ∈ s.answers

@[simp] theorem answers_rest (s : Locks) : s.rest.answers = s.answers := rfl

theorem Answered.of_routines (h : s.Answered) (hroutines : s'.routines = s.routines)
    (hsub : s.answers ⊆ s'.answers) : s'.Answered := by
  intro i c cs ranging hi
  rw [hroutines] at hi
  exact hsub (h i c cs ranging hi)

theorem Answered.advances (h : s.Answered) (ha : Advances s s' i r r') (hr' : r'.stage ≠ .committed)
    (hsub : ∀ j n, j ≠ i → some (j, n) ∈ s.answers → some (j, n) ∈ s'.answers) : s'.Answered := by
  intro j c cs ranging hj
  rw [ha.getElem?] at hj
  split_ifs at hj with hji
  · cases hj
    exact absurd rfl hr'
  · exact hsub j _ hji (h j c cs ranging hj)

theorem Answered.next {l : Label} (h : s.Answered) (hst : s.next l = some s') : s'.Answered := by
  cases l with
  | call calls =>
    cases hst
    intro j c cs ranging hj
    rw [List.getElem?_append] at hj
    split_ifs at hj with hlt
    · exact h j c cs ranging hj
    · cases hk : j - s.routines.length <;> rw [hk] at hj <;> cases hj
  | go i leader =>
    obtain ⟨r, r', ha, hrest, hr'⟩ := advances_of_stepGo hst
    refine h.advances ha hr' fun j n _ hmem => ?_
    rwa [← answers_rest, hrest]
  | commit i =>
    obtain ⟨c, cs, ranging, e, ha, hrest⟩ := advances_of_stepCommit hst
    have hanswers : s'.answers = s.answers ++ [some (i, cs.length + 1)] := by
      rw [← answers_rest, hrest]
      simp [answers, rest]
    intro j c' cs' ranging' hj
    rw [ha.getElem?] at hj
    rw [hanswers]
    split_ifs at hj with hji
    · cases hj
      subst hji
      simp
    · exact List.mem_append_left _ (h j c' cs' ranging' hj)
  | fail i =>
    obtain ⟨c, cs, st, ranging, -, ha, hrest⟩ := advances_of_stepFail hst
    refine h.advances ha (by simp) fun j n _ hmem => ?_
    rwa [← answers_rest, hrest]
  | deliver e =>
    cases hst
    exact h.of_routines rfl (by simp [answers])
  | fsm =>
    rcases stepFsm_cases hst with ⟨e, answer, rest, hidle, hpending, rfl⟩ |
      ⟨e, answer, hlocked, rfl⟩ | ⟨answer, hwritten, hrest, hanswer⟩
    · exact h.of_routines rfl (by simp [answers, hidle, hpending, FsmStage.answers])
    · exact h.of_routines rfl (by simp [answers, hlocked, FsmStage.answers])
    · have hanswers : s.answers = answer :: s'.answers := by
        rw [← answers_rest s', hrest]
        simp [answers, rest, hwritten, FsmStage.answers]
      rcases hanswer with ⟨hroutines, -, hnone⟩ | ⟨i, c, cs, ranging, rfl, ha⟩
      · intro j c cs ranging hj
        rw [hroutines] at hj
        have hmem := h j c cs ranging hj
        rw [hanswers] at hmem
        exact (List.mem_cons.1 hmem).resolve_left (hnone j c cs ranging hj).symm
      · refine h.advances ha (by simp) fun j n hji hmem => ?_
        rw [hanswers] at hmem
        refine (List.mem_cons.1 hmem).resolve_left fun heq => ?_
        cases heq
        exact hji rfl
  | restore =>
    simp only [Locks.next] at hst
    split at hst <;> cases hst
    exact h
  | snapshot =>
    simp only [Locks.next] at hst
    split at hst <;> cases hst
    exact h
  | persisted =>
    cases hst
    exact h

/-- The mutex of `KVFsm` is free between two entries. -/
def FsmFree (s : Locks) : Prop := s.fsm = .idle → s.fsmMutex = false

theorem FsmFree.next {l : Label} (h : s.FsmFree) (hst : s.next l = some s') : s'.FsmFree := by
  intro hidle
  rcases rest_cases hst with hrest | ⟨-, hfsm⟩ | ⟨-, -, rfl⟩ | ⟨-, -, -, rfl⟩ | ⟨-, rfl⟩
  · have hfsm : s'.fsm = s.fsm := (congrArg Locks.fsm hrest :)
    have hmutex : s'.fsmMutex = s.fsmMutex := (congrArg Locks.fsmMutex hrest :)
    rw [hmutex, h (hfsm ▸ hidle)]
  · rcases stepFsm_cases hfsm with ⟨e, answer, rest, -, -, rfl⟩ | ⟨e, answer, -, rfl⟩ |
      ⟨answer, -, hrest, -⟩
    · cases hidle
    · cases hidle
    · exact (congrArg Locks.fsmMutex hrest :)
  · exact h hidle
  · exact h hidle
  · exact h hidle

/-! ### All calls end -/

/-- A bound on the steps that are left, those of the state machine included. -/
def rank (s : Locks) : ℕ := (s.routines.map Routine.left).sum + 3 * s.pending.length + s.fsm.left

/-- The steps of the goroutines, and of Raft for their entries. -/
def Label.isStep : Label → Bool
  | .go _ _ | .commit _ | .fail _ | .fsm => true
  | _ => false

theorem Advances.sum_left (h : Advances s s' i r r') :
    (s'.routines.map Routine.left).sum + r.left = (s.routines.map Routine.left).sum + r'.left := by
  rw [h.after]
  exact sum_map_set h.before

theorem rank_lt_of_next {l : Label} (hl : l.isStep = true) (h : s.next l = some s') :
    s'.rank < s.rank := by
  unfold rank
  cases l with
  | go i leader =>
    obtain ⟨r, r', ha, hrest, -⟩ := advances_of_stepGo h
    rw [show s'.pending = s.pending from (congrArg Locks.pending hrest :),
      show s'.fsm = s.fsm from (congrArg Locks.fsm hrest :)]
    have hsum := ha.sum_left
    have hlt := ha.left
    omega
  | commit i =>
    obtain ⟨c, cs, ranging, e, ha, hrest⟩ := advances_of_stepCommit h
    rw [show s'.pending = _ from (congrArg Locks.pending hrest :),
      show s'.fsm = s.fsm from (congrArg Locks.fsm hrest :)]
    have hsum := ha.sum_left
    simp only [Routine.left] at hsum
    simp only [List.length_append, List.length_singleton]
    omega
  | fail i =>
    obtain ⟨c, cs, st, ranging, -, ha, hrest⟩ := advances_of_stepFail h
    rw [show s'.pending = s.pending from (congrArg Locks.pending hrest :),
      show s'.fsm = s.fsm from (congrArg Locks.fsm hrest :)]
    have hsum := ha.sum_left
    have hlt := ha.left
    omega
  | fsm =>
    rcases stepFsm_cases h with ⟨e, answer, rest, hidle, hpending, rfl⟩ |
      ⟨e, answer, hlocked, rfl⟩ | ⟨answer, hwritten, hrest, hanswer⟩
    · simp only [hidle, hpending, FsmStage.left, List.length_cons]
      omega
    · simp only [hlocked, FsmStage.left]
      omega
    · rw [show s'.pending = s.pending from (congrArg Locks.pending hrest :),
        show s'.fsm = .idle from (congrArg Locks.fsm hrest :), hwritten]
      rcases hanswer with ⟨hroutines, -, -⟩ | ⟨i, c, cs, ranging, -, ha⟩
      · rw [hroutines]
        simp only [FsmStage.left]
        omega
      · have hsum := ha.sum_left
        have hlt := ha.left
        simp only [FsmStage.left]
        omega
  | call | deliver | restore | snapshot | persisted => cases hl

theorem Answered.of_reached (h : machine.Reached opened s) : s.Answered :=
  h.invariant (by simp [Answered, opened]) fun _ _ _ hanswered _ hst => hanswered.next hst

theorem FsmFree.of_reached (h : machine.Reached opened s) : s.FsmFree :=
  h.invariant (fun _ => rfl) fun _ _ _ hfree _ hst => hfree.next hst

/-- Where the state machine has stopped, it has no entry and none waits for it. -/
theorem FsmFree.idle_of_stuck (h : s.FsmFree) (hfsm : s.stepFsm = none) :
    s.fsm = .idle ∧ s.pending = [] := by
  unfold stepFsm at hfsm
  split at hfsm
  case h_1 hidle =>
    refine ⟨hidle, ?_⟩
    split at hfsm
    case h_1 hpending => exact hpending
    case h_2 => simp [h hidle] at hfsm
  case h_2 | h_3 => cases hfsm

/-- **A handler that cannot go on waits for the mutex of `KVStore`**, once the state machine has
stopped. -/
theorem waits_of_stuck (hanswered : s.Answered) (hfree : s.FsmFree)
    (hgo : ∀ i leader, s.stepGo i leader = none) (hcommit : ∀ i, s.stepCommit i = none)
    (hfsm : s.stepFsm = none) {c : StoreCall} {cs : List StoreCall} {st : CallStage}
    {ranging : Option ℕ} (hi : s.routines[i]? = some ⟨c :: cs, st, ranging⟩) :
    st = .start ∧ s.mutex ≠ none := by
  have hgo := hgo i true
  cases st with
  | start =>
    refine ⟨rfl, fun hnone => ?_⟩
    cases c <;> simp [stepGo, hi, hnone] at hgo
  | locked => cases c <;> simp [stepGo, hi] at hgo
  | submitted e =>
    have hcommit := hcommit i
    simp [stepCommit, hi] at hcommit
  | committed =>
    obtain ⟨hidle, hpending⟩ := hfree.idle_of_stuck hfsm
    have hmem := hanswered i c cs ranging hi
    simp [answers, hidle, hpending, FsmStage.answers] at hmem
  | finished => simp [stepGo, hi] at hgo

theorem left_le (r : Routine) : r.left ≤ 9 * r.calls.length := by
  obtain ⟨calls, st, ranging⟩ := r
  cases calls with
  | nil => simp [Routine.left]
  | cons c cs =>
    cases st <;> simp only [Routine.left, List.length_cons] <;> omega

theorem rank_le (s : Locks) :
    s.rank ≤ 9 * (s.routines.map fun r => r.calls.length).sum + 3 * s.pending.length + 2 := by
  have hsum : (s.routines.map Routine.left).sum ≤
      9 * (s.routines.map fun r => r.calls.length).sum := by
    induction s.routines with
    | nil => simp
    | cons r rs ih =>
      have hr := left_le r
      simp only [List.map_cons, List.sum_cons]
      omega
  have hfsm : s.fsm.left ≤ 2 := by cases s.fsm <;> simp [FsmStage.left]
  unfold rank
  omega

/-- **All calls end.**  Although `SetWritesEnabled` keeps the mutex of `KVStore` while the state
machine works on its entry, there is no deadlock: without new requests and entries the goroutines
take a bounded number of steps, and where none of them can go on and Raft has nothing to commit,
every call has returned and both mutexes are free. -/
theorem calls_end (h : machine.Reached opened s) {ls : List Label}
    (hls : ∀ l ∈ ls, l.isStep = true) (hrun : machine.run s ls = some s') :
    ls.length ≤ 9 * (s.routines.map fun r => r.calls.length).sum + 3 * s.pending.length + 2 ∧
      ((∀ i leader, s'.next (.go i leader) = none) → (∀ i, s'.next (.commit i) = none) →
        s'.next .fsm = none →
          (∀ r ∈ s'.routines, r.calls = []) ∧ s'.mutex = none ∧ s'.fsmMutex = false) := by
  have hreached : machine.Reached opened s' := h.trans (Machine.Reached.of_run ls hrun)
  refine ⟨?_, fun hgo hcommit hfsm => ?_⟩
  · have hle := Machine.length_add_rank_le (I := fun _ => True) rank
      (fun s l s' _ hl hst => ⟨trivial, rank_lt_of_next hl hst⟩) trivial hls hrun
    have hrank := s.rank_le
    omega
  · have hfree := FsmFree.of_reached hreached
    have hanswered := Answered.of_reached hreached
    have hmutex : s'.mutex = none := by
      by_contra hne
      obtain ⟨j, hj⟩ := Option.ne_none_iff_exists'.1 hne
      obtain ⟨⟨calls, st, ranging⟩, hr, hholds⟩ := (Owner.of_reached hreached j).1 hj
      cases calls with
      | nil => cases hholds
      | cons c cs =>
        obtain ⟨rfl, -⟩ := waits_of_stuck hanswered hfree hgo hcommit hfsm hr
        simp at hholds
    refine ⟨fun r hr => ?_, hmutex, hfree (hfree.idle_of_stuck hfsm).1⟩
    obtain ⟨i, hi⟩ := List.mem_iff_getElem?.1 hr
    obtain ⟨calls, st, ranging⟩ := r
    cases calls with
    | nil => rfl
    | cons c cs => exact absurd hmutex (waits_of_stuck hanswered hfree hgo hcommit hfsm hi).2

/-- The toggle is committed and applied, and then the `Get` is served. -/
def served : List Label :=
  [.commit 0, .fsm, .fsm, .fsm, .go 0 true, .go 1 true, .go 1 true, .go 1 true]

/-- The two calls of that run return. -/
theorem calls_end_get :
    (∀ r ∈ (after (toggling ++ served)).routines, r.calls = []) ∧
      (after (toggling ++ served)).mutex = none := by
  have hrun : machine.run (after toggling) served = some (after (toggling ++ served)) := rfl
  have hend := calls_end (.of_run toggling rfl) (by decide) hrun
  obtain ⟨hcalls, hmutex, -⟩ := hend.2 (fun i leader => by rcases i with _ | _ | i <;> rfl)
    (fun i => by rcases i with _ | _ | i <;> rfl) rfl
  exact ⟨hcalls, hmutex⟩

end Locks

end ShardedKvs
