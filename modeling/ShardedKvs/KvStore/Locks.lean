import ShardedKvs.KvStore.Basic
import ShardedKvs.Machine.Rank

/-!
# The two mutexes of a process

`KVFsm` is a copy of the type of `KVStore`, and `NewKVFsm` makes a new value of it that shares the
pointer to the map.  So there are two mutexes: handlers lock the one of `KVStore`, and the callbacks
of Raft the one of `KVFsm`.  `Keys` returns a sequence that reads the map after the mutex has been
released, and `SetWritesEnabled` keeps the mutex while it waits for `raft.Apply`.

* `Locks` : the mutexes, the maps, the goroutines of the handlers and the goroutine of the state
  machine; `Locks.machine` : every interleaving of them.
* `Locks.Advances` : everything that a step can do to the goroutine of a handler;
  `Locks.next_cases`, `Locks.rest_cases` : the two halves of a step.
* `Locks.Owner` : the mutex of `KVStore` is held by the goroutine that is inside a locked section.
* `Locks.reads_blocked` : **while `SetWritesEnabled` waits for Raft, no other call gets the mutex**:
  no `Get` is answered by the process.
-/

namespace ShardedKvs

/-- The calls of a handler to its `KVStore`. -/
inductive StoreCall where
  | get
  | keys
  /-- The next step of a range over the sequence that `Keys` has returned. -/
  | nextKey
  | getWritesEnabled
  | setWritesEnabled (b : Bool)
  | set (key value : String)
  | delete (key : String)

/-- The call locks the mutex of `KVStore`. -/
def StoreCall.takesMutex : StoreCall → Bool
  | get | keys | getWritesEnabled | setWritesEnabled _ => true
  | nextKey | set _ _ | delete _ => false

/-- How far a call has got. -/
inductive CallStage where
  | start
  /-- The mutex is locked. -/
  | locked
  /-- In `raft.Apply`, with this entry. -/
  | submitted (e : KVFSMLogEntry)
  /-- In `raft.Apply`, with the entry committed. -/
  | committed
  /-- Before the return, and before the deferred `Unlock`. -/
  | finished
  deriving DecidableEq

/-- The goroutine of a handler: its current call and those that follow. -/
structure Routine where
  calls : List StoreCall
  stage : CallStage
  /-- The map over whose keys it ranges. -/
  ranging : Option ℕ

/-- Where the goroutine of the state machine is in `Apply`, and whose `raft.Apply` it answers. -/
inductive FsmStage where
  | idle
  /-- The mutex of `KVFsm` is locked; before the access. -/
  | locked (e : KVFSMLogEntry) (answer : Option (ℕ × ℕ))
  /-- Before the deferred `Unlock`. -/
  | written (answer : Option (ℕ × ℕ))

/-- The part of a process that is guarded by mutexes, or not.  Maps are numbered in the order in
which they are made. -/
structure Locks where
  /-- The goroutine that holds the mutex of `KVStore`. -/
  mutex : Option ℕ
  writesEnabled : Bool
  store : ℕ
  routines : List Routine
  /-- The mutex of `KVFsm`, which only the goroutine of the state machine locks. -/
  fsmMutex : Bool
  fsmStore : ℕ
  fsm : FsmStage
  /-- The committed entries that have not been applied, each with the goroutine that waits for it
  and the number of calls that this goroutine has left. -/
  pending : List (KVFSMLogEntry × Option (ℕ × ℕ))
  /-- The map that `Persist` is reading. -/
  persisting : Option ℕ
  made : ℕ

namespace Locks

/-- The steps of the goroutines and of Raft. -/
inductive Label where
  /-- A handler starts, with the calls that it will make. -/
  | call (calls : List StoreCall)
  /-- Goroutine `i` goes on; `leader` is what `raft.State` says, if it is asked. -/
  | go (i : ℕ) (leader : Bool)
  /-- Raft commits the entry of goroutine `i`. -/
  | commit (i : ℕ)
  /-- The `raft.Apply` of goroutine `i` ends with an error. -/
  | fail (i : ℕ)
  /-- An entry of another replica is committed. -/
  | deliver (e : KVFSMLogEntry)
  /-- The goroutine of the state machine goes on with its entry, or takes the next one. -/
  | fsm
  /-- `Restore`, with the map of the snapshot. -/
  | restore
  /-- `Snapshot`, and the start of `Persist`. -/
  | snapshot
  /-- The end of `Persist`. -/
  | persisted

/-- Goroutine `i` goes on as `r`. -/
def goto (s : Locks) (i : ℕ) (r : Routine) : Locks := { s with routines := s.routines.set i r }

/-- The next step of goroutine `i`. -/
def stepGo (s : Locks) (i : ℕ) (leader : Bool) : Option Locks :=
  match s.routines[i]? with
  | some ⟨c :: cs, stage, ranging⟩ =>
    match stage with
    | .start =>
      match c with
      -- no mutex: the sequence reads the map itself
      | .nextKey => some (s.goto i ⟨cs, .start, ranging⟩)
      | .set key value =>
        some (s.goto i ⟨.set key value :: cs,
          if leader then .submitted (.set key value) else .finished, ranging⟩)
      | .delete key =>
        some (s.goto i ⟨.delete key :: cs, if leader then .submitted (.delete key) else .finished,
          ranging⟩)
      | c =>
        if s.mutex = none then some ({ s with mutex := some i }.goto i ⟨c :: cs, .locked, ranging⟩)
        else none
    | .locked =>
      match c with
      | .keys => some (s.goto i ⟨.keys :: cs, .finished, some s.store⟩)
      | .setWritesEnabled b =>
        some (s.goto i ⟨.setWritesEnabled b :: cs,
          if s.writesEnabled = b then .finished else .submitted (.toggle b), ranging⟩)
      | c => some (s.goto i ⟨c :: cs, .finished, ranging⟩)
    | .finished =>
      some ({ s with mutex := if c.takesMutex then none else s.mutex }.goto i ⟨cs, .start, ranging⟩)
    | _ => none
  | _ => none

/-- Raft commits the entry of goroutine `i`. -/
def stepCommit (s : Locks) (i : ℕ) : Option Locks :=
  match s.routines[i]? with
  | some ⟨c :: cs, .submitted e, ranging⟩ =>
    some ({ s with pending := s.pending ++ [(e, some (i, (c :: cs).length))] }.goto i
      ⟨c :: cs, .committed, ranging⟩)
  | _ => none

/-- The `raft.Apply` of goroutine `i` ends with an error. -/
def stepFail (s : Locks) (i : ℕ) : Option Locks :=
  match s.routines[i]? with
  | some ⟨c :: cs, .submitted _, ranging⟩ => some (s.goto i ⟨c :: cs, .finished, ranging⟩)
  | some ⟨c :: cs, .committed, ranging⟩ => some (s.goto i ⟨c :: cs, .finished, ranging⟩)
  | _ => none

/-- The answer to the `raft.Apply` of goroutine `i`, unless it has got one. -/
def respond (s : Locks) : Option (ℕ × ℕ) → Locks
  | none => s
  | some (i, n) =>
    match s.routines[i]? with
    | some ⟨c :: cs, .committed, ranging⟩ =>
      if (c :: cs).length = n then s.goto i ⟨c :: cs, .finished, ranging⟩ else s
    | _ => s

/-- The next step of the goroutine of the state machine. -/
def stepFsm (s : Locks) : Option Locks :=
  match s.fsm with
  | .idle =>
    match s.pending with
    | [] => none
    | (e, answer) :: rest =>
      if s.fsmMutex then none
      else some { s with fsmMutex := true, fsm := .locked e answer, pending := rest }
  | .locked _ answer => some { s with fsm := .written answer }
  | .written answer => some ({ s with fsmMutex := false, fsm := .idle }.respond answer)

/-- One step. -/
def next (s : Locks) : Label → Option Locks
  | .call calls => some { s with routines := s.routines ++ [⟨calls, .start, none⟩] }
  | .go i leader => s.stepGo i leader
  | .commit i => s.stepCommit i
  | .fail i => s.stepFail i
  | .deliver e => some { s with pending := s.pending ++ [(e, none)] }
  | .fsm => s.stepFsm
  | .restore =>
    match s.fsm with
    | .idle => some { s with fsmStore := s.made, made := s.made + 1 }
    | _ => none
  | .snapshot =>
    match s.fsm, s.persisting with
    | .idle, none => some { s with persisting := some s.fsmStore }
    | _, _ => none
  | .persisted => some { s with persisting := none }

/-- Every interleaving. -/
def machine : Machine Locks Label := ⟨next⟩

/-- A process that has just been opened: one map for both. -/
def opened : Locks where
  mutex := none
  writesEnabled := false
  store := 0
  routines := []
  fsmMutex := false
  fsmStore := 0
  fsm := .idle
  pending := []
  persisting := none
  made := 1

/-! ### What a step can do to a handler -/

end Locks

namespace Routine

/-- The goroutine holds the mutex of `KVStore`. -/
def holds (r : Routine) : Bool :=
  match r.calls with
  | [] => false
  | c :: _ => c.takesMutex && r.stage ≠ .start

/-- The goroutine is about to lock the mutex of `KVStore`. -/
def wants (r : Routine) : Bool :=
  match r.calls with
  | [] => false
  | c :: _ => c.takesMutex && r.stage = .start

/-- A bound on the steps that are left; a commit leaves work for the state machine. -/
def left (r : Routine) : ℕ :=
  match r.calls with
  | [] => 0
  | _ :: cs => 9 * cs.length + match r.stage with
    | .start => 9
    | .locked => 8
    | .submitted _ => 7
    | .committed => 2
    | .finished => 1

end Routine

namespace FsmStage

/-- Whom the state machine is about to answer. -/
def answers : FsmStage → List (Option (ℕ × ℕ))
  | idle => []
  | locked _ answer | written answer => [answer]

/-- The steps that the state machine has left with its entry. -/
def left : FsmStage → ℕ
  | idle => 0
  | locked _ _ => 2
  | written _ => 1

end FsmStage

namespace Locks

variable {s s' : Locks} {i : ℕ} {r r' : Routine}

/-- Everything that a step does to the goroutine of a handler and to the mutex of `KVStore`. -/
structure Advances (s s' : Locks) (i : ℕ) (r r' : Routine) : Prop where
  before : s.routines[i]? = some r
  after : s'.routines = s.routines.set i r'
  mutex : s'.mutex = if r'.holds = r.holds then s.mutex else if r'.holds then some i else none
  free : r'.holds = true → r.holds = false → s.mutex = none
  releases : r'.holds = false → r.holds = true → r.stage = .finished
  enters : r.wants = true → r'.holds = true
  ranging : r'.ranging = r.ranging ∨ r'.ranging = some s.store
  left : r'.left < r.left

/-- The state without the handlers and their mutex. -/
def rest (s : Locks) : Locks := { s with mutex := none, routines := [] }

/-- A step that changes neither the mutex of `KVStore` nor who holds it. -/
theorem Advances.of_stage (hi : s.routines[i]? = some r)
    (hroutines : s'.routines = s.routines.set i r') (hmutex : s'.mutex = s.mutex)
    (hholds : r'.holds = r.holds) (hwants : r.wants = false)
    (hranging : r'.ranging = r.ranging ∨ r'.ranging = some s.store) (hleft : r'.left < r.left) :
    Advances s s' i r r' := by
  refine ⟨hi, hroutines, ?_, fun h h' => ?_, fun h h' => ?_, fun h => ?_, hranging, hleft⟩
  · rw [if_pos hholds, hmutex]
  · rw [hholds, h'] at h
    cases h
  · rw [hholds, h'] at h
    cases h
  · rw [hwants] at h
    cases h

@[simp] theorem holds_cons (c : StoreCall) (cs : List StoreCall) (st : CallStage)
    (ranging : Option ℕ) :
    Routine.holds ⟨c :: cs, st, ranging⟩ = (c.takesMutex && decide (st ≠ .start)) := rfl

@[simp] theorem wants_cons (c : StoreCall) (cs : List StoreCall) (st : CallStage)
    (ranging : Option ℕ) :
    Routine.wants ⟨c :: cs, st, ranging⟩ = (c.takesMutex && decide (st = .start)) := rfl

@[simp] theorem holds_start (cs : List StoreCall) (ranging : Option ℕ) :
    Routine.holds ⟨cs, .start, ranging⟩ = false := by
  cases cs <;> simp [Routine.holds]

theorem holds_of_wants (h : r.wants = true) : r.holds = false := by
  obtain ⟨calls, st, ranging⟩ := r
  cases calls with
  | nil => rfl
  | cons c cs =>
    simp only [wants_cons, Bool.and_eq_true, decide_eq_true_eq] at h
    rw [h.2, holds_start]

theorem left_pop (c : StoreCall) (cs : List StoreCall) (st : CallStage) (ranging : Option ℕ) :
    Routine.left ⟨cs, .start, ranging⟩ < Routine.left ⟨c :: cs, st, ranging⟩ := by
  cases cs <;> cases st <;> simp [Routine.left] <;> omega

theorem advances_of_stepGo {leader : Bool} (h : s.stepGo i leader = some s') :
    ∃ r r', Advances s s' i r r' ∧ s'.rest = s.rest ∧ r'.stage ≠ .committed := by
  unfold stepGo at h
  split at h
  case h_2 => cases h
  case h_1 c cs stage ranging hi =>
    split at h
    case h_1 =>
      split at h
      case h_1 =>
        cases h
        exact ⟨_, _, .of_stage hi rfl rfl (holds_start _ _) rfl (.inl rfl) (left_pop _ _ _ _), rfl,
          by simp⟩
      case h_2 | h_3 =>
        cases h
        refine ⟨_, _, .of_stage hi rfl rfl rfl rfl (.inl rfl) ?_, rfl, ?_⟩ <;>
          cases leader <;> simp [Routine.left]
      case h_4 hnext hset hdelete =>
        split at h
        case isFalse => cases h
        case isTrue hfree =>
          cases h
          have htakes : c.takesMutex = true := by
            cases c with
            | nextKey => exact absurd rfl hnext
            | set key value => exact absurd rfl (hset key value)
            | delete key => exact absurd rfl (hdelete key)
            | get | keys | getWritesEnabled | setWritesEnabled b => rfl
          refine ⟨_, _, ⟨hi, rfl, ?_, fun _ _ => hfree, ?_, fun _ => ?_, .inl rfl, ?_⟩, rfl,
            by simp⟩
          · simp [htakes, goto]
          · simp
          · simp [htakes]
          · simp [Routine.left]
    case h_2 =>
      split at h <;> cases h
      case h_1 =>
        refine ⟨_, _, .of_stage hi rfl rfl ?_ ?_ (.inr rfl) ?_, rfl, by simp⟩ <;>
          simp [Routine.left]
      case h_2 b =>
        refine ⟨_, _, .of_stage hi rfl rfl ?_ (by simp) (.inl rfl) ?_, rfl, ?_⟩ <;> split_ifs <;>
          simp [Routine.left]
      case h_3 =>
        refine ⟨_, _, .of_stage hi rfl rfl ?_ ?_ (.inl rfl) ?_, rfl, by simp⟩ <;>
          simp [Routine.left]
    case h_3 =>
      cases h
      cases htakes : c.takesMutex with
      | true =>
        refine ⟨_, _, ⟨hi, rfl, ?_, ?_, fun _ _ => rfl, ?_, .inl rfl, left_pop _ _ _ _⟩, rfl,
          by simp⟩ <;> simp [htakes, goto]
      | false =>
        refine ⟨_, _, .of_stage hi rfl ?_ ?_ ?_ (.inl rfl) (left_pop _ _ _ _), rfl, by simp⟩ <;>
          simp [htakes, goto]
    case h_4 => cases h

theorem advances_of_stepCommit (h : s.stepCommit i = some s') :
    ∃ c cs ranging e,
      Advances s s' i ⟨c :: cs, .submitted e, ranging⟩ ⟨c :: cs, .committed, ranging⟩ ∧
      s'.rest = { s.rest with pending := s.pending ++ [(e, some (i, cs.length + 1))] } := by
  unfold stepCommit at h
  split at h
  case h_2 => cases h
  case h_1 c cs e ranging hi =>
    cases h
    refine ⟨c, cs, ranging, e, .of_stage hi rfl rfl ?_ ?_ (.inl rfl) ?_, rfl⟩ <;>
      simp [Routine.left]

/-- A call that waits for Raft gets its answer. -/
theorem advances_finish {c : StoreCall} {cs : List StoreCall} {st : CallStage}
    {ranging : Option ℕ} (hst : (∃ e, st = .submitted e) ∨ st = .committed)
    (hi : s.routines[i]? = some ⟨c :: cs, st, ranging⟩)
    (hroutines : s'.routines = s.routines.set i ⟨c :: cs, .finished, ranging⟩)
    (hmutex : s'.mutex = s.mutex) :
    Advances s s' i ⟨c :: cs, st, ranging⟩ ⟨c :: cs, .finished, ranging⟩ := by
  refine .of_stage hi hroutines hmutex ?_ ?_ (.inl rfl) ?_ <;> rcases hst with ⟨e, rfl⟩ | rfl <;>
    simp [Routine.left]

theorem advances_of_stepFail (h : s.stepFail i = some s') :
    ∃ c cs st ranging, ((∃ e, st = .submitted e) ∨ st = .committed) ∧
      Advances s s' i ⟨c :: cs, st, ranging⟩ ⟨c :: cs, .finished, ranging⟩ ∧ s'.rest = s.rest := by
  unfold stepFail at h
  split at h
  case h_1 c cs e ranging hi =>
    cases h
    exact ⟨c, cs, _, ranging, .inl ⟨e, rfl⟩, advances_finish (.inl ⟨e, rfl⟩) hi rfl rfl, rfl⟩
  case h_2 c cs ranging hi =>
    cases h
    exact ⟨c, cs, _, ranging, .inr rfl, advances_finish (.inr rfl) hi rfl rfl, rfl⟩
  case h_3 => cases h

/-- The answer of the state machine reaches the call that it is for, if that still waits. -/
theorem respond_cases (s : Locks) (answer : Option (ℕ × ℕ)) :
    s.respond answer = s ∧ (∀ i c cs ranging,
        s.routines[i]? = some ⟨c :: cs, .committed, ranging⟩ → answer ≠ some (i, cs.length + 1)) ∨
      ∃ i c cs ranging, answer = some (i, cs.length + 1) ∧
        s.routines[i]? = some ⟨c :: cs, .committed, ranging⟩ ∧
        s.respond answer = s.goto i ⟨c :: cs, .finished, ranging⟩ := by
  cases answer with
  | none => exact .inl ⟨rfl, fun _ _ _ _ _ h => (by cases h)⟩
  | some a =>
    obtain ⟨i, n⟩ := a
    simp only [respond]
    split
    case h_1 c cs ranging hi =>
      split
      case isTrue hn =>
        exact .inr ⟨i, c, cs, ranging, by rw [← hn]; rfl, hi, rfl⟩
      case isFalse hn =>
        refine .inl ⟨rfl, fun j c' cs' ranging' hroutine hj => hn ?_⟩
        cases hj
        rw [hi] at hroutine
        cases hroutine
        rfl
    case h_2 hother =>
      refine .inl ⟨rfl, fun j c cs ranging hroutine hj => ?_⟩
      cases hj
      exact hother c cs ranging hroutine

/-- **A step of the state machine**: it takes an entry, or performs its access, or unlocks its mutex
and answers. -/
theorem stepFsm_cases (h : s.stepFsm = some s') :
    (∃ e answer rest, s.fsm = .idle ∧ s.pending = (e, answer) :: rest ∧
        s' = { s with fsmMutex := true, fsm := .locked e answer, pending := rest }) ∨
      (∃ e answer, s.fsm = .locked e answer ∧ s' = { s with fsm := .written answer }) ∨
      ∃ answer, s.fsm = .written answer ∧
        s'.rest = { s.rest with fsmMutex := false, fsm := .idle } ∧
        ((s'.routines = s.routines ∧ s'.mutex = s.mutex ∧ ∀ i c cs ranging,
            s.routines[i]? = some ⟨c :: cs, .committed, ranging⟩ →
              answer ≠ some (i, cs.length + 1)) ∨
          ∃ i c cs ranging, answer = some (i, cs.length + 1) ∧
            Advances s s' i ⟨c :: cs, .committed, ranging⟩ ⟨c :: cs, .finished, ranging⟩) := by
  unfold stepFsm at h
  split at h
  case h_1 hidle =>
    split at h
    case h_1 => cases h
    case h_2 e answer rest hpending =>
      split_ifs at h
      cases h
      exact .inl ⟨e, answer, rest, hidle, hpending, rfl⟩
  case h_2 e answer hlocked =>
    cases h
    exact .inr (.inl ⟨e, answer, hlocked, rfl⟩)
  case h_3 answer hwritten =>
    cases h
    refine .inr (.inr ⟨answer, hwritten, ?_⟩)
    rcases respond_cases { s with fsmMutex := false, fsm := .idle } answer with
      ⟨heq, hnone⟩ | ⟨i, c, cs, ranging, hanswer, hi, heq⟩ <;> rw [heq]
    · exact ⟨rfl, .inl ⟨rfl, rfl, hnone⟩⟩
    · exact ⟨rfl, .inr ⟨i, c, cs, ranging, hanswer, advances_finish (.inr rfl) hi rfl rfl⟩⟩

/-- **What a step can do to the handlers**: one of them goes on, one is added, or none changes. -/
theorem next_cases {l : Label} (h : s.next l = some s') :
    (∃ i r r', Advances s s' i r r') ∨
      (∃ calls, s'.routines = s.routines ++ [⟨calls, .start, none⟩] ∧ s'.mutex = s.mutex) ∨
      s'.routines = s.routines ∧ s'.mutex = s.mutex := by
  cases l with
  | call calls => cases h; exact .inr (.inl ⟨calls, rfl, rfl⟩)
  | go i leader =>
    obtain ⟨r, r', ha, -⟩ := advances_of_stepGo h
    exact .inl ⟨i, r, r', ha⟩
  | commit i =>
    obtain ⟨c, cs, ranging, e, ha, -⟩ := advances_of_stepCommit h
    exact .inl ⟨i, _, _, ha⟩
  | fail i =>
    obtain ⟨c, cs, st, ranging, -, ha, -⟩ := advances_of_stepFail h
    exact .inl ⟨i, _, _, ha⟩
  | deliver e => cases h; exact .inr (.inr ⟨rfl, rfl⟩)
  | fsm =>
    rcases stepFsm_cases h with ⟨e, answer, rest, -, -, rfl⟩ | ⟨e, answer, -, rfl⟩ |
      ⟨answer, -, -, ⟨hroutines, hmutex, -⟩ | ⟨i, c, cs, ranging, -, ha⟩⟩
    · exact .inr (.inr ⟨rfl, rfl⟩)
    · exact .inr (.inr ⟨rfl, rfl⟩)
    · exact .inr (.inr ⟨hroutines, hmutex⟩)
    · exact .inl ⟨i, _, _, ha⟩
  | restore =>
    simp only [Locks.next] at h
    split at h <;> cases h
    exact .inr (.inr ⟨rfl, rfl⟩)
  | snapshot =>
    simp only [Locks.next] at h
    split at h <;> cases h
    exact .inr (.inr ⟨rfl, rfl⟩)
  | persisted => cases h; exact .inr (.inr ⟨rfl, rfl⟩)

theorem Advances.getElem? (h : Advances s s' i r r') (j : ℕ) :
    s'.routines[j]? = if j = i then some r' else s.routines[j]? := by
  rw [h.after, List.getElem?_set, if_pos (List.getElem?_eq_some_iff.1 h.before).1]
  simp only [eq_comm]

theorem routine_cases {l : Label} (h : s.next l = some s') (hi : s.routines[i]? = some r) :
    s'.routines[i]? = some r ∨ ∃ r', Advances s s' i r r' ∧ s'.routines[i]? = some r' := by
  rcases next_cases h with ⟨j, r₁, r₂, ha⟩ | ⟨calls, hroutines, -⟩ | ⟨hroutines, -⟩
  · rw [ha.getElem?]
    split_ifs with hij
    · subst hij
      cases ha.before.symm.trans hi
      exact .inr ⟨r₂, ha, rfl⟩
    · exact .inl hi
  · rw [hroutines, List.getElem?_append_left (List.getElem?_eq_some_iff.1 hi).1]
    exact .inl hi
  · rw [hroutines]
    exact .inl hi

/-- What a step can do to the state machine and to the maps. -/
theorem rest_cases {l : Label} (h : s.next l = some s') :
    s'.rest = { s.rest with pending := s'.pending } ∨
      (l = .fsm ∧ s.stepFsm = some s') ∨
      (l = .restore ∧ s.fsm = .idle ∧ s' = { s with fsmStore := s.made, made := s.made + 1 }) ∨
      (l = .snapshot ∧ s.fsm = .idle ∧ s.persisting = none ∧
        s' = { s with persisting := some s.fsmStore }) ∨
      (l = .persisted ∧ s' = { s with persisting := none }) := by
  cases l with
  | call calls | deliver e => cases h; exact .inl rfl
  | go i leader =>
    obtain ⟨r, r', -, hrest, -⟩ := advances_of_stepGo h
    rw [show s'.pending = s.pending from (congrArg Locks.pending hrest :)]
    exact .inl hrest
  | commit i =>
    obtain ⟨c, cs, ranging, e, -, hrest⟩ := advances_of_stepCommit h
    rw [show s'.pending = _ from (congrArg Locks.pending hrest :)]
    exact .inl hrest
  | fail i =>
    obtain ⟨c, cs, st, ranging, -, -, hrest⟩ := advances_of_stepFail h
    rw [show s'.pending = s.pending from (congrArg Locks.pending hrest :)]
    exact .inl hrest
  | fsm => exact .inr (.inl ⟨rfl, h⟩)
  | restore =>
    simp only [Locks.next] at h
    split at h <;> cases h
    case h_1 hidle => exact .inr (.inr (.inl ⟨rfl, hidle, rfl⟩))
  | snapshot =>
    simp only [Locks.next] at h
    split at h <;> cases h
    case h_1 hidle hpersisting => exact .inr (.inr (.inr (.inl ⟨rfl, hidle, hpersisting, rfl⟩)))
  | persisted => cases h; exact .inr (.inr (.inr (.inr ⟨rfl, rfl⟩)))

/-! ### Who holds the mutex -/

/-- The mutex of `KVStore` is held by the goroutine that is between `Lock` and `Unlock`. -/
def Owner (s : Locks) : Prop :=
  ∀ i, s.mutex = some i ↔ ∃ r, s.routines[i]? = some r ∧ r.holds = true

theorem Owner.advances (h : s.Owner) (ha : Advances s s' i r r') : s'.Owner := by
  have hi : s.mutex = some i ↔ r.holds = true := by
    rw [h i, ha.before]
    simp
  intro j
  rw [ha.mutex, ha.getElem?]
  by_cases hji : j = i
  · subst hji
    cases hr : r.holds <;> cases hr' : r'.holds <;> simp [hi, hr, hr']
  · rw [if_neg hji, ← h j]
    cases hr : r.holds <;> cases hr' : r'.holds
    case false.false | true.true => rfl
    case false.true =>
      simp [ha.free hr' hr, Ne.symm hji]
    case true.false =>
      simp [hi.2 hr, Ne.symm hji]

theorem Owner.next {l : Label} (h : s.Owner) (hst : s.next l = some s') : s'.Owner := by
  rcases next_cases hst with ⟨i, r, r', ha⟩ | ⟨calls, hroutines, hmutex⟩ | ⟨hroutines, hmutex⟩
  · exact h.advances ha
  · intro j
    rw [hmutex, hroutines, h j, List.getElem?_append]
    split_ifs with hlt
    · rfl
    · rw [List.getElem?_eq_none (by omega)]
      cases hk : j - s.routines.length <;> simp
  · intro j
    rw [hmutex, hroutines]
    exact h j

theorem Owner.of_reached (h : machine.Reached opened s) : s.Owner :=
  h.invariant (by simp [Owner, opened]) fun _ _ _ howner _ hst => howner.next hst

/-- Goroutine `i` is in `SetWritesEnabled` and waits for `raft.Apply`. -/
def Waits (s : Locks) (i : ℕ) : Prop :=
  ∃ b cs st ranging, s.routines[i]? = some ⟨.setWritesEnabled b :: cs, st, ranging⟩ ∧
    ((∃ e, st = .submitted e) ∨ st = .committed)

theorem exists_holds_of_waits (h : s.Waits i) :
    ∃ r, s.routines[i]? = some r ∧ r.holds = true ∧ r.stage ≠ .finished := by
  obtain ⟨b, cs, st, ranging, hroutine, ⟨e, rfl⟩ | rfl⟩ := h <;>
    exact ⟨_, hroutine, rfl, by simp⟩

theorem Owner.mutex_of_waits (h : s.Owner) (hi : s.Waits i) : s.mutex = some i := by
  obtain ⟨r, hr, hholds, -⟩ := exists_holds_of_waits hi
  exact (h i).2 ⟨r, hr, hholds⟩

/-- The mutex is not released before `raft.Apply` returns. -/
theorem Owner.mutex_of_next {l : Label} (h : s.Owner) (hi : s.Waits i) (hst : s.next l = some s') :
    s'.mutex = some i := by
  obtain ⟨r, hr, hholds, hstage⟩ := exists_holds_of_waits hi
  refine (h.next hst i).2 ?_
  rcases routine_cases hst hr with hsame | ⟨r', ha, hr'⟩
  · exact ⟨r, hsame, hholds⟩
  · refine ⟨r', hr', ?_⟩
    by_contra hreleased
    exact hstage (ha.releases (by simpa using hreleased) hholds)

/-- While the mutex is taken, a call that wants it does not go on. -/
theorem stays_of_next {l : Label} {j : ℕ} (hmutex : s.mutex = some i) (hst : s.next l = some s')
    (hj : s.routines[j]? = some r) (hr : r.wants = true) : s'.routines[j]? = some r := by
  rcases routine_cases hst hj with hsame | ⟨r', ha, -⟩
  · exact hsame
  · -- it would hold the mutex after the step, so the mutex was free
    rw [ha.free (ha.enters hr) (holds_of_wants hr)] at hmutex
    cases hmutex

/-- **Reads are blocked while `SetWritesEnabled` waits for Raft.**  Until `raft.Apply` returns, no
call that needs the mutex of `KVStore` gets any further, whatever the other goroutines and Raft
do. -/
theorem reads_blocked (h : machine.Reached opened s)
    (h' : machine.ReachedBy (fun s _ => s.Waits i) s s') {j : ℕ} (hj : s.routines[j]? = some r)
    (hr : r.wants = true) (hi : s.Waits i) : s'.mutex = some i ∧ s'.routines[j]? = some r := by
  have howner := Owner.of_reached h
  have hkept : s'.Owner ∧ s'.mutex = some i ∧ s'.routines[j]? = some r := by
    refine h'.invariant (I := fun s => s.Owner ∧ s.mutex = some i ∧ s.routines[j]? = some r)
      ⟨howner, howner.mutex_of_waits hi, hj⟩ ?_
    rintro s l s' ⟨howner, hmutex, hj⟩ hwaits hst
    exact ⟨howner.next hst, howner.mutex_of_next hwaits hst, stays_of_next hmutex hst hj hr⟩
  exact hkept.2

/-- The state after a run from the start. -/
def after (ls : List Label) : Locks := (machine.run opened ls).getD opened

/-- `SetWritesEnabled` has called `raft.Apply`, and a `Get` has arrived. -/
def toggling : List Label :=
  [.call [.setWritesEnabled true], .call [.get], .go 0 true, .go 0 true]

/-- The `Get` still waits for the mutex when Raft has applied an entry and committed the toggle. -/
theorem reads_blocked_get :
    (after (toggling ++ [.deliver (.set "k" "v"), .fsm, .fsm, .fsm, .commit 0])).mutex = some 0 ∧
      (after (toggling ++ [.deliver (.set "k" "v"), .fsm, .fsm, .fsm, .commit 0])).routines[1]? =
        some ⟨[.get], .start, none⟩ := by
  have hwaits : (after toggling).Waits 0 := ⟨true, [], _, none, rfl, .inl ⟨_, rfl⟩⟩
  refine reads_blocked (s := after toggling) (.of_run toggling rfl) ?_ rfl rfl hwaits
  exact .head (l := .deliver (.set "k" "v")) hwaits rfl <|
    .head (l := .fsm) ⟨true, [], _, none, rfl, .inl ⟨_, rfl⟩⟩ rfl <|
    .head (l := .fsm) ⟨true, [], _, none, rfl, .inl ⟨_, rfl⟩⟩ rfl <|
    .head (l := .fsm) ⟨true, [], _, none, rfl, .inl ⟨_, rfl⟩⟩ rfl <|
    .head (l := .commit 0) ⟨true, [], _, none, rfl, .inl ⟨_, rfl⟩⟩ rfl .start

end Locks

end ShardedKvs
