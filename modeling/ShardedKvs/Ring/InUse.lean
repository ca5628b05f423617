import ShardedKvs.Ring.Clients

/-!
# The rings of a process

A process builds a ring from every configuration that it reads: `main` and `ReloadConfig` from the
shards, `RedistributeKeys` from the new shards.  It uses `ch` until the next reload assigns it, and
a goroutine uses its own ring to its end, so that many configurations can be in use at once.

* `Thread.ring`, `Thread.target` : the ring of a goroutine, and the shard that it is about to call.
* `Process.Rings` : every ring of the process meets a condition, and every shard that is about to be
  called is a member of such a ring.
* `Process.Rings.next` : **what holds for the rings of all configurations that a process reads holds
  for all rings that it has in use**, in every interleaving of its goroutines.
-/

namespace ShardedKvs

/-- The members of the ring that a thread has built or is about to build or assign. -/
def Thread.ring : Thread → Option (List String)
  | .reload members => some members
  | .redistribute _ members => some members
  | .move members => some members
  | .moveTo members _ => some members
  | _ => none

/-- The shard whose client the thread is about to call. -/
def Thread.target : Thread → Option String
  | .moveTo _ m => some m
  | .request m => some m
  | _ => none

namespace Process

/-- Every ring of the process, `ch` and those of its threads, has members that meet `P`, and calls
go to members of such rings. -/
structure Rings (P : List String → Prop) (s : Process) : Prop where
  ch : P s.ch
  threads : ∀ i members, (s.threads i).ring = some members → P members
  targets : ∀ i m, (s.threads i).target = some m → ∃ members, P members ∧ m ∈ members

/-- The rings that can be built from a configuration have members that meet `P`. -/
def RingsFrom (P : List String → Prop) (c : KVStoreConfig) : Prop :=
  P c.members ∧ (c.newShards ≠ [] → P (names c.newShards))

/-- The configuration that the step reads meets `Q`. -/
def Reads (Q : KVStoreConfig → Prop) : Label → Prop
  | .restart c => Q c
  | .reload _ c => Q c
  | .redistribute _ c => Q c
  | _ => True

theorem Reads.mono {Q Q' : KVStoreConfig → Prop} {l : Label} (h : Reads Q l)
    (hQ : ∀ c, Q c → Q' c) : Reads Q' l := by
  cases l with
  | restart c => exact hQ c h
  | reload i c => exact hQ c h
  | redistribute i c => exact hQ c h
  | request i key | moveKey i key found | moved i | go i => trivial

variable {P : List String → Prop} {H : Hashing} {shard : String} {s s' : Process} {i : ℕ}
  {t : Thread}

theorem Rings.step (h : Rings P s) (hthreads : s'.threads = Function.update s.threads i t)
    (hch : P s'.ch) (hring : ∀ members, t.ring = some members → P members)
    (htarget : ∀ m, t.target = some m → ∃ members, P members ∧ m ∈ members) : Rings P s' := by
  refine ⟨hch, fun j members hj => ?_, fun j m hj => ?_⟩ <;> rw [hthreads] at hj <;>
    by_cases hji : j = i
  · rw [hji, Function.update_self] at hj
    exact hring members hj
  · rw [Function.update_of_ne hji] at hj
    exact h.threads j members hj
  · rw [hji, Function.update_self] at hj
    exact htarget m hj
  · rw [Function.update_of_ne hji] at hj
    exact h.targets j m hj

/-- The step of one thread that keeps the ring `ch`, keeps its own ring or gives it up, and calls no
shard next. -/
theorem Rings.keep (h : Rings P s) (hthreads : s'.threads = Function.update s.threads i t)
    (hch : s'.ch = s.ch) (hring : ∀ members, t.ring = some members →
      (s.threads i).ring = some members) (htarget : t.target = none) : Rings P s' := by
  refine h.step hthreads (hch ▸ h.ch) (fun ms hms => h.threads i ms (hring ms hms)) fun m hm => ?_
  rw [htarget] at hm
  cases hm

theorem Rings.go (h : Rings P s) (hst : s.go i = some s') : Rings P s' := by
  unfold Process.go at hst
  split at hst
  · cases hst
  · cases hst
  · cases hst
    exact h.keep rfl rfl (fun _ hms => (by cases hms)) rfl
  · cases hst
    exact h.keep rfl rfl (fun _ hms => (by cases hms)) rfl
  · rename_i members ht
    cases hst
    exact h.step rfl (h.threads i members (by rw [ht]; rfl)) (fun _ hms => (by cases hms))
      fun _ hm => (by cases hm)
  · rename_i members ht
    cases hst
    exact h.keep rfl rfl (fun ms hms => by rw [ht]; exact hms) rfl
  · rename_i m todo members ht
    cases hst
    exact h.keep rfl rfl (fun ms hms => by rw [ht]; exact hms) rfl
  · rename_i members m ht
    cases hst
    exact h.keep rfl rfl (fun ms hms => by rw [ht]; exact hms) rfl
  · cases hst
    exact h.keep rfl rfl (fun _ hms => (by cases hms)) rfl

theorem rings_start {c : KVStoreConfig} (hc : RingsFrom P c) (lookups : List (String × Bool)) :
    Rings P { start c with lookups := lookups } := by
  have hthread : ∀ i, ((start c).threads i).ring = none ∧ ((start c).threads i).target = none := by
    intro i
    by_cases h0 : i = 0
    · subst h0
      exact ⟨rfl, rfl⟩
    · have hidle : (start c).threads i = .idle := by simp [start, h0]
      rw [hidle]
      exact ⟨rfl, rfl⟩
  refine ⟨hc.1, fun i members hi => ?_, fun i m hi => ?_⟩
  · cases (hthread i).1.symm.trans hi
  · cases (hthread i).2.symm.trans hi

/-- **One step keeps what holds for the rings of all configurations that are read.** -/
theorem Rings.next {l : Label} (h : Rings P s) (hl : Reads (RingsFrom P) l)
    (hst : s.next H shard l = some s') : Rings P s' := by
  cases l with
  | restart c =>
    cases hst
    exact rings_start hl _
  | reload i c =>
    simp only [Process.next] at hst
    split at hst
    · cases hst
      unfold KVStoreConfig.reload
      split_ifs
      · exact h
      · refine h.step rfl h.ch (fun ms hms => ?_) fun _ hm => (by cases hm)
        cases hms
        exact hl.1
    · cases hst
  | redistribute i c =>
    simp only [Process.next] at hst
    split at hst
    · split_ifs at hst with hidle <;> cases hst
      · exact h
      · simp only [Bool.or_eq_true, decide_eq_true_eq, not_or] at hidle
        refine h.step rfl h.ch (fun ms hms => ?_) fun _ hm => (by cases hm)
        cases hms
        exact hl.2 hidle.2
    · cases hst
  | request i key =>
    simp only [Process.next] at hst
    split at hst
    · obtain ⟨m, hm, rfl⟩ := Option.map_eq_some_iff.1 hst
      refine h.step rfl h.ch (fun _ hms => (by cases hms)) fun m' hm' => ?_
      cases hm'
      exact ⟨s.ch, h.ch, H.mem hm⟩
    · cases hst
  | moveKey i key found =>
    simp only [Process.next] at hst
    split at hst
    · rename_i members ht
      obtain ⟨m, hm, hst⟩ := Option.bind_eq_some_iff.1 hst
      obtain ⟨oldLocation, -, rfl⟩ := Option.map_eq_some_iff.1 hst
      have hring : P members := h.threads i members (by rw [ht]; rfl)
      split_ifs
      · refine h.step rfl h.ch (fun ms hms => ?_) fun m' hm' => ?_
        · cases hms
          exact hring
        · cases hm'
          exact ⟨members, hring, H.mem hm⟩
      · exact h
    · cases hst
  | moved i =>
    simp only [Process.next] at hst
    split at hst
    · cases hst
      exact h.keep rfl rfl (fun _ hms => (by cases hms)) rfl
    · cases hst
  | go i => exact h.go hst

end Process

end ShardedKvs
