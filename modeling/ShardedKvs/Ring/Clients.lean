import Mathlib.Data.Finset.Insert
import Mathlib.Data.List.Basic
import Mathlib.Logic.Function.Basic
import ShardedKvs.Config.Basic
import ShardedKvs.Machine.Basic

/-!
# The ring and the table of clients

A process routes a request in two steps: it asks its ring `ch` for a member, and it looks the client
of that member up in `shardClients`.  The ring is assigned as a whole, by `main` and by
`ReloadConfig`; the table is filled shard by shard by `PopulateShardClients`, always *after* the
ring has been assigned.  `RedistributeKeys` does it the other way round: it fills the table before
it builds its own ring `newCh`.  A lookup that finds no entry gives a nil client, and the call
through it crashes the process.

* `Hashing` : consistent hashing, of which only matters that it answers a member of the ring.
* `Process`, `Thread` : the state that the goroutines of one process share, and where each of them
  is.
* `Process.machine` : every interleaving of them, one assignment at a time.
* `Process.found_of_settled` : **every lookup finds a client, if no handler looks one up that a
  startup or a reload still has to add**.  The lookups of the redistribution need no condition.
* `Process.not_found` : a request that arrives right after the start.
-/

namespace ShardedKvs

/-- Consistent hashing: `LocateKey` of the ring over the given members. -/
structure Hashing where
  locate : List String → String → Option String
  mem : ∀ {members key m}, locate members key = some m → m ∈ members

/-- Where a goroutine of the process is. -/
inductive Thread where
  | idle
  /-- `PopulateShardClients`, at the start or at the end of a reload, with the shards left. -/
  | populate (todo : List String)
  /-- `ReloadConfig` that is about to assign `ch`. -/
  | reload (members : List String)
  /-- `RedistributeKeys` that fills the table for the members of its ring. -/
  | redistribute (todo members : List String)
  /-- The loop of `RedistributeKeys`, with the members of `newCh`. -/
  | move (members : List String)
  /-- The loop has a value for `m` in hand and is about to look its client up. -/
  | moveTo (members : List String) (m : String)
  /-- A `Get`, `Put` or `Delete` that has located `m`. -/
  | request (m : String)

/-- The shards that the thread still has to add for a ring that is in use. -/
def Thread.pending : Thread → List String
  | .populate todo => todo
  | _ => []

/-- A replica process, as far as it routes. -/
structure Process where
  /-- The members of the ring. -/
  ch : List String
  /-- The keys of the table. -/
  shardClients : Finset String
  threads : ℕ → Thread
  redistributingKeys : Bool
  /-- The lookups in the table so far, and whether they have found a client. -/
  lookups : List (String × Bool)

namespace Process

/-- The steps of the goroutines. -/
inductive Label where
  /-- The process is started again, and reads `c`. -/
  | restart (c : KVStoreConfig)
  /-- `ReloadConfig` is called on thread `i`, and reads `c`. -/
  | reload (i : ℕ) (c : KVStoreConfig)
  /-- `RedistributeKeys` is called on thread `i`, and reads `c`. -/
  | redistribute (i : ℕ) (c : KVStoreConfig)
  /-- A request for `key` arrives on thread `i`, and is located. -/
  | request (i : ℕ) (key : String)
  /-- The loop of `RedistributeKeys` on thread `i` comes to `key`, which `Get` finds or not. -/
  | moveKey (i : ℕ) (key : String) (found : Bool)
  /-- The loop of `RedistributeKeys` on thread `i` is over. -/
  | moved (i : ℕ)
  /-- Thread `i` does its next assignment or lookup. -/
  | go (i : ℕ)

/-- The names of some shards. -/
def names (xs : List KVStoreShard) : List String := xs.map KVStoreShard.name

/-- The process when `main` has assigned the ring and has started its goroutines. -/
def start (c : KVStoreConfig) : Process where
  ch := c.members
  shardClients := ∅
  threads := Function.update (fun _ => .idle) 0 (.populate (names (c.shards ++ c.newShards)))
  redistributingKeys := false
  lookups := []

/-- Thread `i` goes on as `t`. -/
def setThread (s : Process) (i : ℕ) (t : Thread) : Process :=
  { s with threads := Function.update s.threads i t }

/-- A lookup in the table. -/
def lookup (s : Process) (m : String) : Process :=
  { s with lookups := s.lookups ++ [(m, decide (m ∈ s.shardClients))] }

/-- The next assignment or lookup of thread `i`.  A dial that fails is tried again. -/
def go (s : Process) (i : ℕ) : Option Process :=
  match s.threads i with
  | .idle | .move _ => none
  | .populate [] => some (s.setThread i .idle)
  | .populate (m :: todo) =>
    some ({ s with shardClients := insert m s.shardClients }.setThread i (.populate todo))
  | .reload members => some ({ s with ch := members }.setThread i (.populate members))
  | .redistribute [] members => some (s.setThread i (.move members))
  | .redistribute (m :: todo) members =>
    some ({ s with shardClients := insert m s.shardClients }.setThread i
      (.redistribute todo members))
  | .moveTo members m => some ((s.lookup m).setThread i (.move members))
  | .request m => some ((s.lookup m).setThread i .idle)

/-- One step of a process of the shard `shard`. -/
def next (H : Hashing) (shard : String) (s : Process) : Label → Option Process
  | .restart c => some { start c with lookups := s.lookups }
  | .reload i c =>
    match s.threads i with
    | .idle => some (c.reload.elim s fun members => s.setThread i (.reload members))
    | _ => none
  | .redistribute i c =>
    match s.threads i with
    | .idle =>
      if s.redistributingKeys || c.newShards = [] then some s
      else some ({ s with redistributingKeys := true }.setThread i
        (.redistribute (names c.newShards) (names c.newShards)))
    | _ => none
  | .request i key =>
    match s.threads i with
    | .idle => (H.locate s.ch key).map fun m => s.setThread i (.request m)
    | _ => none
  | .moveKey i key found =>
    match s.threads i with
    | .move members =>
      (H.locate members key).bind fun m =>
        (H.locate s.ch key).map fun oldLocation =>
          if oldLocation ≠ m ∧ oldLocation = shard ∧ found then s.setThread i (.moveTo members m)
          else s
    | _ => none
  | .moved i =>
    match s.threads i with
    | .move _ => some ({ s with redistributingKeys := false }.setThread i .idle)
    | _ => none
  | .go i => s.go i

/-- Every interleaving of the goroutines. -/
def machine (H : Hashing) (shard : String) : Machine Process Label := ⟨next H shard⟩

/-- Some thread still has to add `m` for a ring that is in use. -/
def Pending (s : Process) (m : String) : Prop := ∃ i, m ∈ (s.threads i).pending

/-- No handler looks up a client that a startup or a reload still has to add. -/
def Settled (s : Process) : Label → Prop
  | .go i => ∀ m, s.threads i = .request m → ¬ s.Pending m
  | _ => True

/-! ### What the threads rely on -/

/-- The member has a client, or will get one. -/
def Covered (s : Process) (m : String) : Prop := m ∈ s.shardClients ∨ s.Pending m

/-- What a thread relies on. -/
def ThreadOk (s : Process) : Thread → Prop
  | .request m => s.Covered m
  | .redistribute todo members => ∀ m ∈ members, m ∈ s.shardClients ∨ m ∈ todo
  | .move members => ∀ m ∈ members, m ∈ s.shardClients
  | .moveTo members m => m ∈ s.shardClients ∧ ∀ m ∈ members, m ∈ s.shardClients
  | _ => True

/-- The invariant: the members of the ring are covered, and the threads have what they rely on. -/
structure Inv (s : Process) : Prop where
  ring : ∀ m ∈ s.ch, s.Covered m
  threads : ∀ i, s.ThreadOk (s.threads i)
  found : ∀ x ∈ s.lookups, x.2 = true

variable {H : Hashing} {shard : String} {s s' : Process} {i : ℕ} {t : Thread}

theorem ThreadOk.mono (h : s.ThreadOk t) (hclients : s.shardClients ⊆ s'.shardClients)
    (hcovered : ∀ m, s.Covered m → s'.Covered m) : s'.ThreadOk t := by
  cases t with
  | idle | populate todo | reload members => trivial
  | redistribute todo members => exact fun m hm => (h m hm).imp_left fun hmem => hclients hmem
  | move members => exact fun m hm => hclients (h m hm)
  | moveTo members m => exact ⟨hclients h.1, fun m hm => hclients (h.2 m hm)⟩
  | request m => exact hcovered m h

/-- A step of thread `i` that only adds to the table, and hands on or adds what the thread had to
add. -/
theorem Covered.step {m : String} (h : s.Covered m)
    (hthreads : s'.threads = Function.update s.threads i t)
    (hclients : s.shardClients ⊆ s'.shardClients)
    (hpending : ∀ m ∈ (s.threads i).pending, m ∈ s'.shardClients ∨ m ∈ t.pending) :
    s'.Covered m := by
  rcases h with hmem | ⟨j, hj⟩
  · exact .inl (hclients hmem)
  · by_cases hji : j = i
    · subst hji
      refine (hpending m hj).imp_right fun hmem => ⟨j, ?_⟩
      rw [hthreads, Function.update_self]
      exact hmem
    · refine .inr ⟨j, ?_⟩
      rw [hthreads, Function.update_of_ne hji]
      exact hj

/-- **The step rule.**  All steps but a restart are of this form. -/
theorem Inv.step (h : Inv s) (hthreads : s'.threads = Function.update s.threads i t)
    (hclients : s.shardClients ⊆ s'.shardClients)
    (hpending : ∀ m ∈ (s.threads i).pending, m ∈ s'.shardClients ∨ m ∈ t.pending)
    (hch : ∀ m ∈ s'.ch, m ∈ s.ch ∨ m ∈ t.pending) (hok : s'.ThreadOk t)
    (hlookups : ∀ x ∈ s'.lookups, x ∈ s.lookups ∨ x.2 = true) : Inv s' := by
  have hcovered : ∀ m, s.Covered m → s'.Covered m :=
    fun m hm => hm.step hthreads hclients hpending
  refine ⟨fun m hm => ?_, fun j => ?_, fun x hx => ?_⟩
  · rcases hch m hm with hmem | hmem
    · exact hcovered m (h.ring m hmem)
    · refine .inr ⟨i, ?_⟩
      rw [hthreads, Function.update_self]
      exact hmem
  · rw [hthreads]
    by_cases hji : j = i
    · rw [hji, Function.update_self]
      exact hok
    · rw [Function.update_of_ne hji]
      exact (h.threads j).mono hclients hcovered
  · exact (hlookups x hx).elim (h.found x) fun hfound => hfound

/-- A thread that has nothing to add goes on, and the table and the ring stay. -/
theorem Inv.setThread (h : Inv s) (hpending : (s.threads i).pending = []) {b : Bool}
    (hok : ({ s with redistributingKeys := b }.setThread i t).ThreadOk t) :
    Inv ({ s with redistributingKeys := b }.setThread i t) := by
  refine h.step rfl (fun _ hm => hm) ?_ (fun _ hm => .inl hm) hok fun _ hx => .inl hx
  rw [hpending]
  exact fun _ hm => absurd hm List.not_mem_nil

theorem Inv.lookup {m : String} (h : Inv s) (hpending : (s.threads i).pending = [])
    (hm : m ∈ s.shardClients) (hok : ((s.lookup m).setThread i t).ThreadOk t) :
    Inv ((s.lookup m).setThread i t) := by
  refine h.step rfl (fun _ hm => hm) ?_ (fun _ hm => .inl hm) hok fun x hx => ?_
  · rw [hpending]
    exact fun _ hm => absurd hm List.not_mem_nil
  · rcases List.mem_append.1 hx with hmem | hmem
    · exact .inl hmem
    · rw [List.mem_singleton.1 hmem]
      exact .inr (decide_eq_true hm)

theorem Inv.go (h : Inv s) (hg : s.Settled (.go i)) (hst : s.go i = some s') : Inv s' := by
  have hthread := h.threads i
  unfold Process.go at hst
  split at hst
  · cases hst
  · cases hst
  · rename_i ht
    cases hst
    exact h.setThread (by rw [ht]; rfl) trivial
  · rename_i m todo ht
    cases hst
    refine h.step rfl (Finset.subset_insert m _) ?_ (fun _ hm => .inl hm) trivial
      fun _ hx => .inl hx
    rw [ht]
    intro m' hm'
    rcases List.mem_cons.1 hm' with rfl | hmem
    · exact .inl (Finset.mem_insert_self ..)
    · exact .inr hmem
  · rename_i members ht
    cases hst
    refine h.step rfl (fun _ hm => hm) ?_ (fun _ hm => .inr hm) trivial fun _ hx => .inl hx
    rw [ht]
    exact fun _ hm => absurd hm List.not_mem_nil
  · rename_i members ht
    cases hst
    rw [ht] at hthread
    refine h.setThread (by rw [ht]; rfl) fun m hm => ?_
    exact (hthread m hm).resolve_right List.not_mem_nil
  · rename_i m todo members ht
    cases hst
    rw [ht] at hthread
    refine h.step rfl (Finset.subset_insert m _) ?_ (fun _ hm => .inl hm) ?_ fun _ hx => .inl hx
    · rw [ht]
      exact fun _ hm => absurd hm List.not_mem_nil
    · intro m' hm'
      rcases hthread m' hm' with hmem | hmem
      · exact .inl (Finset.mem_insert_of_mem hmem)
      · rcases List.mem_cons.1 hmem with rfl | hmem
        · exact .inl (Finset.mem_insert_self ..)
        · exact .inr hmem
  · rename_i members m ht
    cases hst
    rw [ht] at hthread
    exact h.lookup (by rw [ht]; rfl) hthread.1 hthread.2
  · -- the one lookup that the invariant does not cover by itself
    rename_i m ht
    cases hst
    rw [ht] at hthread
    exact h.lookup (by rw [ht]; rfl) (hthread.resolve_right (hg m ht)) trivial

theorem inv_start (c : KVStoreConfig) {lookups : List (String × Bool)}
    (hfound : ∀ x ∈ lookups, x.2 = true) : Inv { start c with lookups := lookups } := by
  refine ⟨fun m hm => .inr ⟨0, ?_⟩, fun i => ?_, hfound⟩
  · change m ∈ names (c.shards ++ c.newShards)
    unfold names
    rw [List.map_append]
    exact List.mem_append_left _ hm
  · by_cases hi : i = 0
    · subst hi
      trivial
    · have hidle : (start c).threads i = .idle := by simp [start, hi]
      rw [hidle]
      trivial

theorem Inv.next {l : Label} (h : Inv s) (hg : s.Settled l) (hst : s.next H shard l = some s') :
    Inv s' := by
  cases l with
  | restart c =>
    cases hst
    exact inv_start c h.found
  | reload i c =>
    simp only [Process.next] at hst
    split at hst
    · rename_i ht
      obtain rfl := Option.some.inj hst
      cases c.reload with
      | none => exact h
      | some members => exact h.setThread (by rw [ht]; rfl) trivial
    · cases hst
  | redistribute i c =>
    simp only [Process.next] at hst
    split at hst
    · rename_i ht
      split_ifs at hst <;> cases hst
      · exact h
      · exact h.setThread (by rw [ht]; rfl) fun m hm => .inr hm
    · cases hst
  | request i key =>
    simp only [Process.next] at hst
    split at hst
    · rename_i ht
      obtain ⟨m, hm, rfl⟩ := Option.map_eq_some_iff.1 hst
      have hcovered := h.ring m (H.mem hm)
      refine h.setThread (by rw [ht]; rfl) (hcovered.step rfl (fun _ hm => hm) ?_)
      rw [ht]
      exact fun _ hm => absurd hm List.not_mem_nil
    · cases hst
  | moveKey i key found =>
    simp only [Process.next] at hst
    split at hst
    · rename_i members ht
      obtain ⟨m, hm, hst⟩ := Option.bind_eq_some_iff.1 hst
      obtain ⟨oldLocation, -, rfl⟩ := Option.map_eq_some_iff.1 hst
      have hthread := h.threads i
      rw [ht] at hthread
      split_ifs
      · exact h.setThread (by rw [ht]; rfl) ⟨hthread m (H.mem hm), hthread⟩
      · exact h
    · cases hst
  | moved i =>
    simp only [Process.next] at hst
    split at hst
    · rename_i ht
      cases hst
      exact h.setThread (by rw [ht]; rfl) trivial
    · cases hst
  | go i => exact h.go hg hst

/-- **Every routed request finds a client, once the table has caught up with the ring.**  For every
sequence of configurations that a process reads and every interleaving of its startup, its reloads,
its redistributions and its requests: if no handler looks up a client that the startup, or a reload
that has assigned its ring, still has to add, then every lookup finds a client.  The lookups of the
redistribution always do. -/
theorem found_of_settled (H : Hashing) (shard : String) (c : KVStoreConfig) (s : Process)
    (h : (machine H shard).ReachedBy Settled (start c) s) : ∀ x ∈ s.lookups, x.2 = true := by
  have hinv : Inv s := h.invariant (inv_start c fun _ hx => absurd hx List.not_mem_nil)
    fun _ _ _ hi hg hst => hi.next hg hst
  exact hinv.found

/-- Every key is located at the first member. -/
def firstMember : Hashing := ⟨fun members _ => members.head?, fun h => List.mem_of_mem_head? h⟩

/-- A process whose startup is done serves a request. -/
theorem found_of_settled_request :
    ∃ s, (machine firstMember "kv-shard-0").ReachedBy Settled (start (kvConfig "kv" 1 1 1)) s ∧
      s.lookups.length = 1 ∧ ∀ x ∈ s.lookups, x.2 = true := by
  obtain ⟨s, hs, hlength⟩ : ∃ s,
      (machine firstMember "kv-shard-0").ReachedBy Settled (start (kvConfig "kv" 1 1 1)) s ∧
        s.lookups.length = 1 := by
    refine ⟨_, .head (l := .go 0) ?_ rfl <| .head (l := .request 1 "a") trivial rfl <|
      .head (l := .go 1) ?_ rfl .start, rfl⟩
    · intro m hm
      cases hm
    · -- the startup has added its only shard
      rintro m - ⟨j, hj⟩
      rcases j with _ | _ | j <;> exact absurd hj List.not_mem_nil
  exact ⟨s, hs, hlength, found_of_settled firstMember "kv-shard-0" _ s hs⟩

/-- **A request that arrives right after the start finds no client.**  The ring has been assigned,
the server is up, and the goroutine that fills the table has not run yet. -/
theorem not_found :
    ¬ ∀ s, (machine firstMember "kv-shard-0").Reached (start (kvConfig "kv" 1 1 1)) s →
      ∀ x ∈ s.lookups, x.2 = true := by
  intro h
  have hbad := h _ (Machine.Reached.of_run [.request 1 "a", .go 1] rfl)
    ("kv-shard-0", false) (by decide)
  cases hbad

end Process

end ShardedKvs
