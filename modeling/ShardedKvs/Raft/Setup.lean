import Mathlib.Data.List.Induction
import ShardedKvs.Program.Basic
import ShardedKvs.Raft.Basic

/-!
# The first start of a replica

One replica of every shard is started with `shouldBootstrap`.  It has to bootstrap the Raft group of
the shard once, on its first start; `main` takes the presence of the file `bolt` as the sign of a
restart.  `SetupRaft` creates that file long before it bootstraps, and can fail in between.

* `Volume` : what survives a start.
* `Attempt` : how the calls of one start end.
* `setupRaft`, `main` : one start, up to the point where the servers are started.
* `final_main` : what a start leaves on the volume.
* `bootstrapped_iff` : **a start that runs through leaves a bootstrapped group exactly when the
  first attempt that created the file also bootstrapped**; no two attempts ever call
  `BootstrapCluster`.
-/

namespace ShardedKvs

namespace Raft

/-- What a replica keeps between two starts. -/
structure Volume where
  /-- The file `bolt` exists. -/
  bolt : Bool
  /-- The configuration in the store of Raft, once it has been bootstrapped. -/
  configuration : Option Configuration
  /-- The calls of `BootstrapCluster` so far. -/
  bootstraps : ℕ

/-- A volume that has just been provisioned. -/
def Volume.empty : Volume := ⟨false, none, 0⟩

/-- The flags of a replica that concern its start. -/
structure Flags where
  shard : String
  replica : String
  raftPort : ℕ
  shouldBootstrap : Bool

open Program

/-- How the calls of one start end. -/
structure Attempt where
  /-- Reading and parsing the configuration file. -/
  readConfig : CallResult
  stat : CallResult
  newBoltStore : CallResult
  newFileSnapshotStore : CallResult
  resolveTCPAddr : CallResult
  newTCPTransport : CallResult
  newRaft : CallResult
  bootstrapCluster : CallResult
  /-- `transport.LocalAddr()`. -/
  localAddr : String

/-- `raftboltdb.NewBoltStore` creates the file. -/
def Volume.createBolt (v : Volume) : Volume := { v with bolt := true }

/-- `r.BootstrapCluster`; Raft refuses it on a store that has a configuration. -/
def Volume.bootstrapCluster (c : Configuration) (v : Volume) : Volume :=
  match v.configuration with
  | none => { v with configuration := some c }
  | some _ => v

/-- `SetupRaft`. -/
def setupRaft (a : Attempt) (id : String) (shouldBootstrap : Bool) : Program Stop Volume Unit := do
  call a.newBoltStore "could not create bolt store: " Volume.createBolt
  call a.newFileSnapshotStore "could not create snapshot store: " fun v => v
  call a.resolveTCPAddr "could not resolve address: " fun v => v
  call a.newTCPTransport "could not create tcp transport: " fun v => v
  call a.newRaft "could not create raft instance: " fun v => v
  if shouldBootstrap then
    modify fun v => { v with bootstraps := v.bootstraps + 1 }
    call a.bootstrapCluster "could not bootstrap cluster: "
      (Volume.bootstrapCluster (.single id a.localAddr))

/-- `isRestart`: any answer of `os.Stat` but that the file does not exist counts as a restart. -/
def isRestart (o : CallResult) : Program Stop Volume Bool := fun v =>
  match o with
  | .ok => .ok v.bolt v
  | .failed _ _ => .ok true v
  | .crashed _ => .error .crashed v

/-- `main`, up to the end of `kvStore.Open`. -/
def main (f : Flags) (a : Attempt) : Program Stop Volume Unit := do
  -- `log.Fatalf` with a text of its own for the read and for the parse
  call a.readConfig "" fun v => v
  let restart ← isRestart a.stat
  setupRaft a (raftId f.replica f.shard f.raftPort) (!restart && f.shouldBootstrap)

/-- The volume after some attempts. -/
def startAll (f : Flags) (as : List Attempt) : Volume :=
  as.foldl (fun v a => final (main f a) v) .empty

/-! ### One attempt -/

namespace Attempt

/-- The attempt gets to `NewBoltStore`. -/
def reaches (a : Attempt) : Bool := a.readConfig = .ok ∧ ∀ done, a.stat ≠ .crashed done

/-- The attempt leaves the file `bolt` behind. -/
def creates (a : Attempt) : Bool := a.reaches ∧ a.newBoltStore.effective = true

/-- The attempt gets from `NewBoltStore` to `BootstrapCluster`. -/
def raftCreated (a : Attempt) : Bool :=
  a.newBoltStore = .ok ∧ a.newFileSnapshotStore = .ok ∧ a.resolveTCPAddr = .ok ∧
    a.newTCPTransport = .ok ∧ a.newRaft = .ok

/-- The attempt bootstraps the group, if it finds no file `bolt`. -/
def bootstraps (a : Attempt) : Bool :=
  a.readConfig = .ok ∧ a.stat = .ok ∧ a.raftCreated = true ∧ a.bootstrapCluster.effective = true

/-- The attempt runs through without a failure. -/
structure Complete (a : Attempt) : Prop where
  readConfig : a.readConfig = .ok
  stat : a.stat = .ok
  newBoltStore : a.newBoltStore = .ok
  newFileSnapshotStore : a.newFileSnapshotStore = .ok
  resolveTCPAddr : a.resolveTCPAddr = .ok
  newTCPTransport : a.newTCPTransport = .ok
  newRaft : a.newRaft = .ok
  bootstrapCluster : a.bootstrapCluster = .ok

end Attempt

variable {f : Flags} {a : Attempt} {v : Volume}

/-- The calls between `NewBoltStore` and `BootstrapCluster` leave the volume alone. -/
theorem final_setupRaft (id : String) (shouldBootstrap : Bool) :
    final (setupRaft a id shouldBootstrap) v =
      if a.raftCreated && shouldBootstrap then
        final (call a.bootstrapCluster "could not bootstrap cluster: "
          (Volume.bootstrapCluster (.single id a.localAddr)))
          { v.createBolt with bootstraps := v.bootstraps + 1 }
      else if a.newBoltStore.effective then v.createBolt else v := by
  unfold setupRaft Attempt.raftCreated
  simp only [final_call_bind, ite_self]
  -- each call in turn: one that does not succeed ends the program with the file already there
  by_cases h₁ : a.newBoltStore = .ok
  swap
  · simp [h₁]
  by_cases h₂ : a.newFileSnapshotStore = .ok
  swap
  · simp [h₁, h₂, CallResult.effective]
  by_cases h₃ : a.resolveTCPAddr = .ok
  swap
  · simp [h₁, h₂, h₃, CallResult.effective]
  by_cases h₄ : a.newTCPTransport = .ok
  swap
  · simp [h₁, h₂, h₃, h₄, CallResult.effective]
  by_cases h₅ : a.newRaft = .ok
  swap
  · simp [h₁, h₂, h₃, h₄, h₅, CallResult.effective]
  simp only [h₁, h₂, h₃, h₄, h₅, if_true, and_self, decide_true, Bool.true_and,
    CallResult.effective]
  cases shouldBootstrap <;> rfl

/-- What `main` leaves on the volume: nothing new if it does not get to `SetupRaft`. -/
theorem final_main :
    final (main f a) v = if a.reaches then
      final (setupRaft a (raftId f.replica f.shard f.raftPort)
        (decide (a.stat = .ok) && !v.bolt && f.shouldBootstrap)) v else v := by
  unfold main Attempt.reaches
  rw [final_call_bind, ite_self]
  by_cases h : a.readConfig = .ok
  · rw [if_pos h, final_bind]
    cases hs : a.stat with
    | ok => simp [isRestart, h]
    | failed err done => simp [isRestart, h]
    | crashed done => simp [isRestart, h]
  · simp [h]

/-- Once the file is there, no attempt changes the volume. -/
theorem final_main_of_bolt (h : v.bolt = true) : final (main f a) v = v := by
  have hv : v.createBolt = v := by
    unfold Volume.createBolt
    rw [← h]
  rw [final_main, final_setupRaft, h, hv]
  simp

/-- The file is there after an attempt on an empty volume exactly when the attempt creates it. -/
theorem bolt_final_main : (final (main f a) .empty).bolt = a.creates := by
  rw [final_main, final_setupRaft]
  unfold Attempt.creates
  cases hr : a.reaches with
  | false => rfl
  | true =>
    cases hc : a.raftCreated && (decide (a.stat = .ok) && !Volume.empty.bolt && f.shouldBootstrap)
    · cases a.newBoltStore.effective <;> rfl
    · -- `BootstrapCluster` comes after `NewBoltStore`
      have hbolt : a.newBoltStore = .ok :=
        (of_decide_eq_true (Bool.and_eq_true_iff.1 hc).1).1
      rw [hbolt, final_call]
      cases a.bootstrapCluster.effective <;> rfl

/-- An attempt that does not create the file leaves an empty volume empty. -/
theorem final_main_of_not_creates (h : a.creates = false) : final (main f a) .empty = .empty := by
  rw [final_main, final_setupRaft]
  cases hr : a.reaches with
  | false => rfl
  | true =>
    have heff : a.newBoltStore.effective = false := by
      simpa [Attempt.creates, hr] using h
    have hbolt : a.newBoltStore ≠ .ok := by
      intro hok
      rw [hok] at heff
      cases heff
    simp [Attempt.raftCreated, hbolt, heff]

/-- The group is bootstrapped after an attempt on an empty volume exactly when the attempt gets
through `BootstrapCluster`. -/
theorem configuration_final_main (hf : f.shouldBootstrap = true) :
    (final (main f a) .empty).configuration.isSome = a.bootstraps := by
  rw [final_main, final_setupRaft, hf, final_call]
  unfold Attempt.bootstraps Attempt.reaches
  by_cases hconfig : a.readConfig = .ok
  swap
  · simp [hconfig, Volume.empty]
  cases hstat : a.stat with
  | failed err done =>
    cases a.newBoltStore.effective <;> simp [hconfig, Volume.empty, Volume.createBolt]
  | crashed done => simp [Volume.empty]
  | ok =>
    cases hc : a.raftCreated with
    | false => cases a.newBoltStore.effective <;> simp [hconfig, Volume.empty, Volume.createBolt]
    | true =>
      cases a.bootstrapCluster.effective <;>
        simp [hconfig, Volume.empty, Volume.createBolt, Volume.bootstrapCluster]

/-- One attempt calls `BootstrapCluster` at most once. -/
theorem bootstraps_final_main : (final (main f a) .empty).bootstraps ≤ 1 := by
  rw [final_main, final_setupRaft, final_call]
  split_ifs <;> simp [Volume.empty, Volume.createBolt, Volume.bootstrapCluster]

/-! ### Any number of attempts -/

/-- **The first attempt that creates the file decides.**  The attempts before it leave the volume
empty, those after it do not touch it any more. -/
theorem startAll_eq (f : Flags) (as : List Attempt) :
    startAll f as = (as.find? Attempt.creates).elim .empty fun a => final (main f a) .empty := by
  induction as using List.reverseRecOn with
  | nil => rfl
  | append_singleton as a ih =>
    have hstep : startAll f (as ++ [a]) = final (main f a) (startAll f as) := by
      unfold startAll
      rw [List.foldl_append]
      rfl
    rw [hstep, ih, List.find?_append]
    cases hfind : as.find? Attempt.creates with
    | some a' =>
      refine final_main_of_bolt ?_
      rw [Option.elim_some, bolt_final_main]
      exact List.find?_some hfind
    | none =>
      rw [Option.none_or, List.find?_singleton]
      cases hc : a.creates with
      | false => exact final_main_of_not_creates hc
      | true => rfl

/-- **Only the first attempt that creates the file can bootstrap the group.**  For the replica that
is started with `shouldBootstrap` and every sequence of attempts, each of which may fail or crash at
any call, with or without the effect of that call: an attempt that then runs through leaves a
bootstrapped group exactly when the first of the earlier attempts that left the file `bolt` behind,
if there is one, bootstrapped it as well.  Whatever the attempts do, `BootstrapCluster` is called at
most once. -/
theorem bootstrapped_iff (f : Flags) (hf : f.shouldBootstrap = true) (as : List Attempt)
    (a : Attempt) (ha : a.Complete) :
    ((startAll f (as ++ [a])).configuration.isSome = true ↔
        ∀ a', as.find? Attempt.creates = some a' → a'.bootstraps = true) ∧
      ∀ as', (startAll f as').bootstraps ≤ 1 := by
  have hcreates : a.creates = true := by
    simp [Attempt.creates, Attempt.reaches, ha.readConfig, ha.stat, ha.newBoltStore,
      CallResult.effective]
  have hboot : a.bootstraps = true := by
    simp [Attempt.bootstraps, Attempt.raftCreated, ha.readConfig, ha.stat, ha.newBoltStore,
      ha.newFileSnapshotStore, ha.resolveTCPAddr, ha.newTCPTransport, ha.newRaft,
      ha.bootstrapCluster, CallResult.effective]
  constructor
  · rw [startAll_eq, List.find?_append]
    cases hfind : as.find? Attempt.creates with
    | some a' =>
      rw [Option.some_or, Option.elim_some, configuration_final_main hf]
      simp
    | none =>
      rw [Option.none_or, List.find?_singleton, hcreates, if_pos rfl, Option.elim_some,
        configuration_final_main hf, hboot]
      simp
  · intro as'
    rw [startAll_eq]
    cases as'.find? Attempt.creates with
    | none => exact Nat.zero_le 1
    | some a' => exact bootstraps_final_main

/-- The flags of the first replica of a shard. -/
def firstReplica : Flags := ⟨"kv-shard-0", "kv-shard-0-replica-0", 8082, true⟩

/-- A start in which everything succeeds. -/
def Attempt.through : Attempt := ⟨.ok, .ok, .ok, .ok, .ok, .ok, .ok, .ok, "10.0.0.1:8082"⟩

theorem Attempt.complete_through : Attempt.through.Complete :=
  ⟨rfl, rfl, rfl, rfl, rfl, rfl, rfl, rfl⟩

/-- A start that cannot open the store, one that crashes right after it has bootstrapped, and one
that runs through. -/
theorem bootstrapped_iff_crash :
    (startAll firstReplica [{ Attempt.through with newBoltStore := .failed "timeout" false },
      { Attempt.through with bootstrapCluster := .crashed true },
      Attempt.through]).configuration.isSome = true := by
  refine (bootstrapped_iff firstReplica rfl [{ Attempt.through with
    newBoltStore := .failed "timeout" false }, { Attempt.through with
    bootstrapCluster := .crashed true }] _ Attempt.complete_through).1.2 fun a' ha' => ?_
  cases ha'
  rfl

/-- **A first start that fails before it bootstraps forfeits the bootstrap.**  The address cannot be
resolved yet; the next start finds the file and takes itself for a restart. -/
theorem not_bootstrapped :
    ¬ ∀ as a, a.Complete → (startAll firstReplica (as ++ [a])).configuration.isSome = true := by
  intro h
  have hbad := h [{ Attempt.through with resolveTCPAddr := .failed "no such host" false }]
    Attempt.through Attempt.complete_through
  exact absurd hbad (by decide)

end Raft

end ShardedKvs
