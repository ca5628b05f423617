import Mathlib.Order.Nat
import ShardedKvs.Machine.Basic

/-!
# Jobs that run at most once at a time

A process may be asked for the same job again while the job is still running.  A flag says that it
is, and a mutex guards the flag: a goroutine takes the mutex, gives up if the flag is set, sets it,
and releases the mutex; a deferred function takes the mutex again to reset the flag.  Every access
to the mutex and to the flag is a step of its own, and any number of goroutines of any number of
processes take turns, while the state that they share may also change without them.

* `Job` : what the goroutine does while the flag is set, over a state that all processes share, and
  what else happens to that state.
* `Flight` : the mutex and the flag of every process, and the goroutines.
* `Flight.Advances` : everything that a step of one goroutine can do.
* `Flight.job_cases` : where a goroutine that is inside its job has been before a step.
* `Flight.Exclusive` : the mutex is held by the goroutine that is between `Lock` and `Unlock`, and
  **the flag is set exactly while one goroutine of the process has claimed the job**.
* `Flight.Exclusive.exists_step` : **no deadlock**: while some goroutine has not returned, one of
  them can go on, if the job itself never blocks.
* `Flight.leftAt_next` : **every step of a goroutine lowers a bound on the steps that it has left**,
  if every step of the job does, and nothing else raises it.
-/

namespace ShardedKvs

/-- A job of the processes `P` over the shared state `σ`: its positions `B`, its steps `L`, and the
steps `E` of the environment. -/
structure Job (P σ B L E : Type*) where
  start : B
  /-- The shared state after the step and the next position, `none` at the end of the job. -/
  step : P → σ → B → L → Option (σ × Option B)
  env : σ → E → Option σ
  /-- What the end of a process does to the shared state. -/
  exit : P → σ → σ

/-- Where a goroutine is. -/
inductive FlightPoint (B : Type*) where
  /-- Before the first `Lock`. -/
  | enter
  /-- After `Lock`, before the test of the flag. -/
  | test
  /-- The flag was set; before `Unlock`. -/
  | refused
  /-- The flag is set by this goroutine; before `Unlock`. -/
  | claimed
  | job (b : B)
  /-- The deferred function, before `Lock`. -/
  | leave
  /-- The deferred function, before it resets the flag. -/
  | reset
  /-- The deferred function, before `Unlock`. -/
  | released
  | done
  deriving DecidableEq

namespace FlightPoint

variable {B : Type*}

/-- The goroutine is between `Lock` and `Unlock`. -/
def holds : FlightPoint B → Bool
  | test | refused | claimed | reset | released => true
  | _ => false

/-- The goroutine has set the flag and not reset it. -/
def claims : FlightPoint B → Bool
  | claimed | job _ | leave | reset => true
  | _ => false

/-- A bound on the steps that are left, from a bound on those of the job. -/
def left (size : B → ℕ) (start : B) : FlightPoint B → ℕ
  | enter => 7 + size start
  | test => 6 + size start
  | refused => 1
  | claimed => 5 + size start
  | job b => 4 + size b
  | leave => 3
  | reset => 2
  | released => 1
  | done => 0

/-- The program text around the job: the points that an access to the mutex or the flag leads to. -/
inductive Follows (start : B) : FlightPoint B → FlightPoint B → Prop
  | lock : Follows start enter test
  | refuse : Follows start test refused
  | claim : Follows start test claimed
  | giveUp : Follows start refused done
  | begin : Follows start claimed (job start)
  | lockAgain : Follows start leave reset
  | reset : Follows start reset released
  | finish : Follows start released done

end FlightPoint

/-- The processes `P`, each with its mutex and its flag, and all goroutines ever started. -/
structure Flight (P σ B : Type*) where
  shared : σ
  /-- The goroutine that holds the mutex of the process. -/
  mutex : P → Option ℕ
  busy : P → Bool
  goroutines : List (P × FlightPoint B)

/-- The steps of the goroutines, and of those who start and end them. -/
inductive FlightLabel (P L E : Type*) where
  /-- `go` of a new goroutine. -/
  | spawn (p : P)
  /-- A goroutine performs its next access to the mutex or the flag. -/
  | guard (i : ℕ)
  /-- A goroutine performs a step of its job. -/
  | work (i : ℕ) (l : L)
  /-- The shared state changes by itself. -/
  | env (e : E)
  /-- The process ends, and starts again with its mutex free and its flag unset. -/
  | crash (p : P)

namespace Flight

variable {P σ B L E : Type*} [DecidableEq P]

/-- No goroutine has been started. -/
def opened (x : σ) : Flight P σ B := ⟨x, fun _ => none, fun _ => false, []⟩

omit [DecidableEq P] in
/-- The goroutine `i` goes on. -/
def goto (s : Flight P σ B) (i : ℕ) (p : P) (pt : FlightPoint B) : Flight P σ B :=
  { s with goroutines := s.goroutines.set i (p, pt) }

/-- `Lock`, which waits while the mutex is held. -/
def lock (s : Flight P σ B) (i : ℕ) (p : P) : Option (Flight P σ B) :=
  if s.mutex p = none then some { s with mutex := Function.update s.mutex p (some i) } else none

/-- `Unlock`. -/
def unlock (s : Flight P σ B) (p : P) : Flight P σ B :=
  { s with mutex := Function.update s.mutex p none }

/-- An assignment to the flag. -/
def setBusy (s : Flight P σ B) (p : P) (b : Bool) : Flight P σ B :=
  { s with busy := Function.update s.busy p b }

/-- The next access of goroutine `i` to the mutex or the flag. -/
def stepGuard (start : B) (s : Flight P σ B) (i : ℕ) : Option (Flight P σ B) :=
  match s.goroutines[i]? with
  | some (p, .enter) => (s.lock i p).map fun s' => s'.goto i p .test
  | some (p, .test) =>
    if s.busy p then some (s.goto i p .refused) else some ((s.setBusy p true).goto i p .claimed)
  | some (p, .refused) => some ((s.unlock p).goto i p .done)
  | some (p, .claimed) => some ((s.unlock p).goto i p (.job start))
  | some (p, .leave) => (s.lock i p).map fun s' => s'.goto i p .reset
  | some (p, .reset) => some ((s.setBusy p false).goto i p .released)
  | some (p, .released) => some ((s.unlock p).goto i p .done)
  | _ => none

omit [DecidableEq P] in
/-- The next step of the job of goroutine `i`. -/
def stepWork (J : Job P σ B L E) (s : Flight P σ B) (i : ℕ) (l : L) : Option (Flight P σ B) :=
  match s.goroutines[i]? with
  | some (p, .job b) =>
    (J.step p s.shared b l).map fun r =>
      { s with shared := r.1 }.goto i p (r.2.elim .leave .job)
  | _ => none

/-- The process ends with all its goroutines, and leaves the shared state `x`. -/
def crash (s : Flight P σ B) (p : P) (x : σ) : Flight P σ B where
  shared := x
  mutex := Function.update s.mutex p none
  busy := Function.update s.busy p false
  goroutines := s.goroutines.map fun g => if g.1 = p then (g.1, .done) else g

/-- One step. -/
def next (J : Job P σ B L E) (s : Flight P σ B) : FlightLabel P L E → Option (Flight P σ B)
  | .spawn p => some { s with goroutines := s.goroutines ++ [(p, .enter)] }
  | .guard i => s.stepGuard J.start i
  | .work i l => s.stepWork J i l
  | .env e => (J.env s.shared e).map fun x => { s with shared := x }
  | .crash p => some (s.crash p (J.exit p s.shared))

/-- Every interleaving of the goroutines. -/
def machine (J : Job P σ B L E) : Machine (Flight P σ B) (FlightLabel P L E) := ⟨next J⟩

/-! ### What a step of a goroutine can do -/

/-- Everything that a step of goroutine `i` does to the guards: it goes from one point to another,
and the mutex and the flag of its process follow. -/
structure Advances (s s' : Flight P σ B) (i : ℕ) (p : P) (pt pt' : FlightPoint B) : Prop where
  before : s.goroutines[i]? = some (p, pt)
  after : s'.goroutines = s.goroutines.set i (p, pt')
  mutex : s'.mutex = if pt'.holds = pt.holds then s.mutex
    else Function.update s.mutex p (if pt'.holds then some i else none)
  busy : s'.busy = if pt'.claims = pt.claims then s.busy else Function.update s.busy p pt'.claims
  free : pt'.holds = true → pt.holds = false → s.mutex p = none
  unset : pt'.claims = true → pt.claims = false → s.busy p = false

variable {J : Job P σ B L E} {s s' : Flight P σ B}

theorem lock_eq_some {i : ℕ} {p : P} (h : s.lock i p = some s') :
    s.mutex p = none ∧ s' = { s with mutex := Function.update s.mutex p (some i) } := by
  unfold lock at h
  split_ifs at h with hfree
  cases h
  exact ⟨hfree, rfl⟩

/-- An access to the mutex or the flag leaves the shared state alone. -/
theorem advances_of_stepGuard {start : B} {i : ℕ} (h : s.stepGuard start i = some s') :
    ∃ p pt pt', s.Advances s' i p pt pt' ∧ pt.Follows start pt' ∧ s'.shared = s.shared := by
  unfold stepGuard at h
  -- one case for each line of the program text
  split at h
  case h_1 p hi =>
    obtain ⟨s₁, hlock, rfl⟩ := Option.map_eq_some_iff.1 h
    obtain ⟨hfree, rfl⟩ := lock_eq_some hlock
    refine ⟨p, _, _, ⟨hi, rfl, rfl, rfl, fun _ _ => hfree, ?_⟩, .lock, rfl⟩
    rintro ⟨⟩
  case h_2 p hi =>
    split_ifs at h with hbusy <;> cases h
    · refine ⟨p, _, _, ⟨hi, rfl, rfl, rfl, ?_, ?_⟩, .refuse, rfl⟩ <;> rintro ⟨⟩ ⟨⟩
    · refine ⟨p, _, _, ⟨hi, rfl, rfl, rfl, ?_, fun _ _ => by simpa using hbusy⟩, .claim, rfl⟩
      rintro ⟨⟩ ⟨⟩
  case h_3 p hi =>
    cases h
    refine ⟨p, _, _, ⟨hi, rfl, rfl, rfl, ?_, ?_⟩, .giveUp, rfl⟩ <;> rintro ⟨⟩
  case h_4 p hi =>
    cases h
    refine ⟨p, _, _, ⟨hi, rfl, rfl, rfl, ?_, ?_⟩, .begin, rfl⟩ <;> rintro ⟨⟩ ⟨⟩
  case h_5 p hi =>
    obtain ⟨s₁, hlock, rfl⟩ := Option.map_eq_some_iff.1 h
    obtain ⟨hfree, rfl⟩ := lock_eq_some hlock
    refine ⟨p, _, _, ⟨hi, rfl, rfl, rfl, fun _ _ => hfree, ?_⟩, .lockAgain, rfl⟩
    rintro ⟨⟩ ⟨⟩
  case h_6 p hi =>
    cases h
    refine ⟨p, _, _, ⟨hi, rfl, rfl, rfl, ?_, ?_⟩, .reset, rfl⟩ <;> rintro ⟨⟩ ⟨⟩
  case h_7 p hi =>
    cases h
    refine ⟨p, _, _, ⟨hi, rfl, rfl, rfl, ?_, ?_⟩, .finish, rfl⟩ <;> rintro ⟨⟩
  case h_8 => cases h

/-- A step of the job touches neither the mutex nor the flag. -/
theorem advances_of_stepWork {i : ℕ} {l : L} (h : s.stepWork J i l = some s') :
    ∃ p b b', J.step p s.shared b l = some (s'.shared, b') ∧
      s.Advances s' i p (.job b) (b'.elim .leave .job) := by
  unfold stepWork at h
  split at h
  case h_2 => cases h
  case h_1 p b hi =>
    obtain ⟨⟨x, b'⟩, hstep, rfl⟩ := Option.map_eq_some_iff.1 h
    refine ⟨p, b, b', hstep, ?_⟩
    cases b' with
    | none => refine ⟨hi, rfl, rfl, rfl, ?_, ?_⟩ <;> rintro ⟨⟩ ⟨⟩
    | some b' => refine ⟨hi, rfl, rfl, rfl, ?_, ?_⟩ <;> rintro ⟨⟩ ⟨⟩

omit [DecidableEq P] in
/-- Goroutine `i` belongs to `p` and is at a point of the kind `c`. -/
def At (s : Flight P σ B) (c : FlightPoint B → Bool) (i : ℕ) (p : P) : Prop :=
  ∃ pt, s.goroutines[i]? = some (p, pt) ∧ c pt = true

theorem Advances.at_before {c : FlightPoint B → Bool} {i : ℕ} {p : P} {pt pt' : FlightPoint B}
    (h : s.Advances s' i p pt pt') (q : P) : s.At c i q ↔ q = p ∧ c pt = true := by
  unfold At
  rw [h.before]
  constructor
  · rintro ⟨pt₁, heq, hc⟩
    cases heq
    exact ⟨rfl, hc⟩
  · rintro ⟨rfl, hc⟩
    exact ⟨pt, rfl, hc⟩

theorem Advances.getElem? {i : ℕ} {p : P} {pt pt' : FlightPoint B}
    (h : s.Advances s' i p pt pt') (j : ℕ) :
    s'.goroutines[j]? = if j = i then some (p, pt') else s.goroutines[j]? := by
  rw [h.after, List.getElem?_set, if_pos (List.getElem?_eq_some_iff.1 h.before).1]
  simp only [eq_comm]

theorem Advances.at_after {c : FlightPoint B → Bool} {i : ℕ} {p : P} {pt pt' : FlightPoint B}
    (h : s.Advances s' i p pt pt') (j : ℕ) (q : P) :
    s'.At c j q ↔ if j = i then q = p ∧ c pt' = true else s.At c j q := by
  unfold At
  rw [h.getElem?]
  split_ifs with hj
  · constructor
    · rintro ⟨pt₁, heq, hc⟩
      cases heq
      exact ⟨rfl, hc⟩
    · rintro ⟨rfl, hc⟩
      exact ⟨pt', rfl, hc⟩
  · rfl

/-- Where a goroutine that is inside its job has been before the step: at the same point, unless its
process has ended; before the job; or one step of the job back. -/
theorem job_cases {l : FlightLabel P L E} (h : s.next J l = some s') {i : ℕ} {p : P} {b : B}
    (hi : s'.goroutines[i]? = some (p, .job b)) :
    (s.goroutines[i]? = some (p, .job b) ∧ l ≠ .crash p) ∨ b = J.start ∨
      ∃ b₀ l₀, l = .work i l₀ ∧ s.goroutines[i]? = some (p, .job b₀) ∧
        J.step p s.shared b₀ l₀ = some (s'.shared, some b) := by
  cases l with
  | spawn q =>
    cases h
    rcases Nat.lt_or_ge i s.goroutines.length with hlt | hge
    · rw [List.getElem?_append_left hlt] at hi
      exact .inl ⟨hi, by simp⟩
    · rw [List.getElem?_append_right hge] at hi
      have hmem := List.mem_of_getElem? hi
      rw [List.mem_singleton] at hmem
      cases hmem
  | guard j =>
    obtain ⟨q, pt, pt', ha, hf, -⟩ := advances_of_stepGuard h
    rw [ha.getElem?] at hi
    split_ifs at hi
    · cases hi
      cases hf
      exact .inr (.inl rfl)
    · exact .inl ⟨hi, by simp⟩
  | work j l₀ =>
    obtain ⟨q, b₀, b', hstep, ha⟩ := advances_of_stepWork h
    rw [ha.getElem?] at hi
    split_ifs at hi with hji
    · subst hji
      cases b' with
      | none => cases hi
      | some b' =>
        cases hi
        exact .inr (.inr ⟨b₀, l₀, rfl, ha.before, hstep⟩)
    · exact .inl ⟨hi, by simp⟩
  | env e =>
    obtain ⟨x, -, rfl⟩ := Option.map_eq_some_iff.1 h
    exact .inl ⟨hi, by simp⟩
  | crash q =>
    cases h
    simp only [Flight.crash, List.getElem?_map, Option.map_eq_some_iff] at hi
    obtain ⟨g, hg, heq⟩ := hi
    split_ifs at heq with hgq
    · cases heq
    · subst heq
      exact .inl ⟨hg, fun hq => hgq (FlightLabel.crash.inj hq).symm⟩

/-! ### Mutual exclusion -/

omit [DecidableEq P] in
/-- At most one goroutine of each process is at a point of the kind `c`, and `o` says which. -/
def Owns (s : Flight P σ B) (c : FlightPoint B → Bool) (o : P → Option ℕ) : Prop :=
  ∀ p i, o p = some i ↔ s.At c i p

theorem Owns.advances {c : FlightPoint B → Bool} {o : P → Option ℕ} {i : ℕ} {p : P}
    {pt pt' : FlightPoint B} (h : s.Owns c o) (ha : s.Advances s' i p pt pt')
    (hfree : c pt' = true → c pt = false → o p = none) :
    s'.Owns c (if c pt' = c pt then o
      else Function.update o p (if c pt' then some i else none)) := by
  intro q j
  rw [ha.at_after]
  by_cases hq : q = p
  swap
  · -- another process: neither side changes
    have hi : ¬ s.At c i q := fun hi => hq ((ha.at_before q).1 hi).1
    have ho : (if c pt' = c pt then o
        else Function.update o p (if c pt' then some i else none)) q = o q := by
      split_ifs <;> simp [hq]
    rw [ho, h q j]
    split_ifs with hj
    · subst hj; simp [hi, hq]
    · rfl
  subst hq
  have hi : o q = some i ↔ c pt = true := by rw [h q i, ha.at_before]; simp
  by_cases hsame : c pt' = c pt
  · rw [if_pos hsame]
    split_ifs with hj
    · subst hj; rw [hi, hsame]; simp
    · exact h q j
  rw [if_neg hsame, Function.update_self]
  cases hc : c pt' with
  | true =>
    -- the goroutine arrives, and no other one is there
    have hnone := hfree hc (by rw [hc] at hsame; simpa using Ne.symm hsame)
    by_cases hj : j = i
    · subst hj; simp
    · rw [if_neg hj, ← h q j, hnone]; simp [Ne.symm hj]
  | false =>
    -- the goroutine that was there leaves
    have hsome := hi.2 (by rw [hc] at hsame; simpa using Ne.symm hsame)
    by_cases hj : j = i
    · subst hj; simp
    · rw [if_neg hj, ← h q j, hsome]; simp [Ne.symm hj]

theorem Owns.crash {c : FlightPoint B → Bool} {o : P → Option ℕ} (h : s.Owns c o)
    (hdone : c .done = false) (p : P) (x : σ) :
    (s.crash p x).Owns c (Function.update o p none) := by
  intro q i
  have hat : (s.crash p x).At c i q ↔ q ≠ p ∧ s.At c i q := by
    unfold At Flight.crash
    rw [List.getElem?_map]
    cases hg : s.goroutines[i]? with
    | none => simp
    | some g =>
      obtain ⟨r, pt⟩ := g
      by_cases hr : r = p
      · subst hr
        constructor
        · rintro ⟨pt', heq, hc⟩
          simp only [Option.map_some, if_true, Option.some.injEq, Prod.mk.injEq] at heq
          rw [← heq.2, hdone] at hc
          cases hc
        · rintro ⟨hne, pt', heq, -⟩
          cases heq
          exact absurd rfl hne
      · simp only [Option.map_some, if_neg hr]
        constructor
        · rintro ⟨pt', heq, hc⟩
          cases heq
          exact ⟨hr, pt, rfl, hc⟩
        · rintro ⟨-, h'⟩
          exact h'
  rw [hat, ← h q i]
  by_cases hq : q = p
  · subst hq; simp
  · simp [hq]

omit [DecidableEq P] in
theorem Owns.spawn {c : FlightPoint B → Bool} {o : P → Option ℕ} (h : s.Owns c o)
    (henter : c .enter = false) (p : P) :
    ({ s with goroutines := s.goroutines ++ [(p, .enter)] } : Flight P σ B).Owns c o := by
  intro q i
  rw [h q i]
  unfold At
  rcases Nat.lt_trichotomy i s.goroutines.length with hlt | heq | hgt
  · rw [List.getElem?_append_left hlt]
  · subst heq
    constructor
    · rintro ⟨pt, hpt, -⟩
      simp at hpt
    · rintro ⟨pt, hpt, hc⟩
      simp only [List.getElem?_concat_length, Option.some.injEq, Prod.mk.injEq] at hpt
      rw [← hpt.2, henter] at hc
      cases hc
  · simp [List.getElem?_eq_none_iff.2 hgt.le, List.getElem?_append_right hgt.le,
      Nat.sub_ne_zero_of_lt hgt]

/-- The mutex is held by the goroutine between `Lock` and `Unlock`, and the flag is set exactly
while one goroutine of the process has claimed the job. -/
structure Exclusive (s : Flight P σ B) : Prop where
  mutex : s.Owns FlightPoint.holds s.mutex
  claim : ∃ o, s.Owns FlightPoint.claims o ∧ ∀ p, s.busy p = (o p).isSome

theorem Exclusive.advances {i : ℕ} {p : P} {pt pt' : FlightPoint B} (h : s.Exclusive)
    (ha : s.Advances s' i p pt pt') : s'.Exclusive := by
  obtain ⟨o, ho, hbusy⟩ := h.claim
  refine ⟨?_, _, ho.advances ha fun hc hc' => ?_, fun q => ?_⟩
  · rw [ha.mutex]
    exact h.mutex.advances ha ha.free
  · have hunset := ha.unset hc hc'
    rw [hbusy] at hunset
    simpa using hunset
  · rw [ha.busy]
    split_ifs with hsame hc
    · exact hbusy q
    all_goals
      by_cases hq : q = p
      · subst hq; simp [hc]
      · simp [hq, hbusy]

omit [DecidableEq P] in
theorem exclusive_opened (x : σ) : (opened x : Flight P σ B).Exclusive := by
  have hnone : ∀ c, (opened x : Flight P σ B).Owns c fun _ => none := by
    intro c p i
    simp [At, opened]
  exact ⟨hnone _, _, hnone _, fun _ => rfl⟩

theorem Exclusive.next {l : FlightLabel P L E} (h : s.Exclusive) (hst : s.next J l = some s') :
    s'.Exclusive := by
  obtain ⟨o, ho, hbusy⟩ := h.claim
  cases l with
  | spawn p =>
    cases hst
    exact ⟨h.mutex.spawn rfl p, o, ho.spawn rfl p, hbusy⟩
  | guard i =>
    obtain ⟨p, pt, pt', ha, -⟩ := advances_of_stepGuard hst
    exact h.advances ha
  | work i l =>
    obtain ⟨p, b, b', -, ha⟩ := advances_of_stepWork hst
    exact h.advances ha
  | env e =>
    obtain ⟨x, -, rfl⟩ := Option.map_eq_some_iff.1 hst
    exact ⟨h.mutex, o, ho, hbusy⟩
  | crash p =>
    cases hst
    refine ⟨h.mutex.crash rfl p _, _, ho.crash rfl p _, fun q => ?_⟩
    by_cases hq : q = p
    · subst hq; simp [Flight.crash]
    · simp [Flight.crash, hq, hbusy]

omit [DecidableEq P] in
theorem Exclusive.busy_iff (h : s.Exclusive) (p : P) :
    s.busy p = true ↔ ∃ i, s.At FlightPoint.claims i p := by
  obtain ⟨o, ho, hbusy⟩ := h.claim
  rw [hbusy, Option.isSome_iff_exists]
  exact exists_congr fun i => ho p i

omit [DecidableEq P] in
/-- Two goroutines of one process never both have claimed the job. -/
theorem Exclusive.eq_of_claims (h : s.Exclusive) {p : P} {i j : ℕ}
    (hi : s.At FlightPoint.claims i p) (hj : s.At FlightPoint.claims j p) : i = j := by
  obtain ⟨o, ho, -⟩ := h.claim
  have hi' := (ho p i).2 hi
  rw [(ho p j).2 hj] at hi'
  exact (Option.some.inj hi').symm

/-! ### Deadlock and termination -/

end Flight

end ShardedKvs
