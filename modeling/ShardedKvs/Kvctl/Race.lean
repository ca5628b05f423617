import ShardedKvs.Kvctl.Stock

/-!
# Edits that race with a `Reconcile`

`Reconcile` works on the copy of the `KVStore` object that it has read at its start.  An edit that
the API server admits before the pass has ended changes the stored object, not the copy; from then
on the resource version of the copy is stale and every status update of the pass is rejected.

* `Reading` : the copy of a pass that is under way, and whether it is stale.
* `Racing.machine` : passes that are read and finished in two steps, with edits in between.
* `Racing.Coherent` : a copy differs from the stored object only if it is stale, and never in its
  status.
* `KVStore.WellFormed`, `wellFormed_of_reached` : **the persisted status is well-formed in every
  reachable state**, whatever fails and whatever is edited.
-/

namespace ShardedKvs

namespace Kvctl

/-- What a `Reconcile` that is under way has read. -/
structure Reading where
  kvStore : KVStore
  /-- The stored object has changed since. -/
  stale : Bool

/-- The cluster, and the `Reconcile` that is under way. -/
structure Racing where
  cluster : Cluster
  reading : Option Reading

/-- What a pass sees: its copy of the `KVStore` object, and the other objects as they are. -/
def Reading.view (rd : Reading) (w : Cluster) : Cluster := { w with kvStore := rd.kvStore }

/-- The answers of the API server to a pass with this copy: a stale one is not written. -/
def Reading.answers (rd : Reading) (a : Answers) : Answers :=
  { a with
    startStatus := a.startStatus && !rd.stale
    updateStatus := a.updateStatus && !rd.stale }

/-- The rest of a pass after it has read the object. -/
def Reading.finish (rd : Reading) (a : Answers) (w : Cluster) : Cluster :=
  let r := reconcile (rd.answers a) (rd.view w)
  if rd.stale then { r.1 with kvStore := w.kvStore } else r.1

namespace Racing

/-- The steps of the controller and its environment. -/
inductive Label where
  /-- A `Reconcile` starts with `r.Get`. -/
  | get
  /-- The `Reconcile` goes through its other calls. -/
  | finish (a : Answers)
  | change (c : Change)

/-- One step.  A store has one `Reconcile` at a time. -/
def next (s : Racing) : Label → Option Racing
  | .get =>
    match s.reading with
    | none => some { s with reading := some ⟨s.cluster.kvStore, false⟩ }
    | some _ => none
  | .finish a => s.reading.map fun rd => ⟨rd.finish a s.cluster, none⟩
  | .change c => (s.cluster.change c).map fun w =>
    ⟨w, match c with
      | .edit _ _ => s.reading.map fun rd => { rd with stale := true }
      | _ => s.reading⟩

/-- Every order of passes, edits and changes of readiness. -/
def machine : Machine Racing Label := ⟨next⟩

/-- A `KVStore` object that has just been created. -/
def created (name : String) (labels : Labels) (spec : KVStoreSpec) : Racing :=
  ⟨(Kvctl.created name labels spec).cluster, none⟩

/-- Everything that a step can do. -/
theorem next_cases {s s' : Racing} {l : Label} (h : s.next l = some s') :
    (l = .get ∧ s' = { s with reading := some ⟨s.cluster.kvStore, false⟩ }) ∨
      (∃ a rd, l = .finish a ∧ s.reading = some rd ∧ s' = ⟨rd.finish a s.cluster, none⟩) ∨
      (∃ spec labels, l = .change (.edit spec labels) ∧ admitted s.cluster.kvStore spec = true ∧
        s' = ⟨{ s.cluster with
            kvStore := { s.cluster.kvStore with spec := spec, labels := labels } },
          s.reading.map fun rd => { rd with stale := true }⟩) ∨
      (∃ name n, l = .change (.ready name n) ∧ s' = { s with
        cluster.statefulSets := s.cluster.statefulSets.map fun x =>
          if x.name = name then { x with readyReplicas := n } else x }) ∨
      ∃ xs ys zs, l = .change (.reorder xs ys zs) ∧ xs.Perm s.cluster.statefulSets ∧
        ys.Perm s.cluster.services ∧ zs.Perm s.cluster.ingresses ∧ s' = { s with
          cluster.statefulSets := xs
          cluster.services := ys
          cluster.ingresses := zs } := by
  cases l with
  | get =>
    simp only [Racing.next] at h
    split at h <;> cases h
    exact .inl ⟨rfl, rfl⟩
  | finish a =>
    obtain ⟨rd, hrd, rfl⟩ := Option.map_eq_some_iff.1 h
    exact .inr (.inl ⟨a, rd, rfl, hrd, rfl⟩)
  | change c =>
    obtain ⟨w, hw, rfl⟩ := Option.map_eq_some_iff.1 h
    rcases Cluster.change_cases hw with ⟨spec, labels, rfl, hadmitted, rfl⟩ | ⟨name, n, rfl, rfl⟩ |
      ⟨xs, ys, zs, rfl, h₁, h₂, h₃, rfl⟩
    · exact .inr (.inr (.inl ⟨spec, labels, rfl, hadmitted, rfl⟩))
    · exact .inr (.inr (.inr (.inl ⟨name, n, rfl, rfl⟩)))
    · exact .inr (.inr (.inr (.inr ⟨xs, ys, zs, rfl, h₁, h₂, h₃, rfl⟩)))

end Racing

/-! ### The copy and the stored object -/

/-- The copy has the name and the status of the stored object.  It is the stored object, unless an
edit has been admitted since, and those are admitted in `Normal` only. -/
structure Reading.Fits (rd : Reading) (w : Cluster) : Prop where
  name : rd.kvStore.name = w.kvStore.name
  status : rd.kvStore.status = w.kvStore.status
  fresh : rd.stale = false → rd.kvStore = w.kvStore
  normal : rd.stale = true → w.phase = .normal

/-- Every copy fits the stored object. -/
def Racing.Coherent (s : Racing) : Prop := ∀ rd, s.reading = some rd → rd.Fits s.cluster

theorem phase_of_admitted {k : KVStore} {spec : KVStoreSpec} (h : admitted k spec = true) :
    k.status.phase = .normal := by
  unfold admitted validateUpdate at h
  by_contra hp
  simp [hp] at h

theorem Racing.Coherent.next {s s' : Racing} {l : Racing.Label} (h : s.Coherent)
    (hst : s.next l = some s') : s'.Coherent := by
  intro rd hrd
  rcases Racing.next_cases hst with ⟨-, rfl⟩ | ⟨a, rd', -, -, rfl⟩ |
    ⟨spec, labels, -, hadmitted, rfl⟩ | ⟨x, n, -, rfl⟩ | ⟨xs, ys, zs, -, -, -, -, rfl⟩
  · cases hrd
    exact ⟨rfl, rfl, fun _ => rfl, nofun⟩
  · cases hrd
  · obtain ⟨rd', hrd', rfl⟩ := Option.map_eq_some_iff.1 hrd
    have hfits := h rd' hrd'
    exact ⟨hfits.name, hfits.status, nofun, fun _ => phase_of_admitted hadmitted⟩
  · exact ⟨(h rd hrd).name, (h rd hrd).status, (h rd hrd).fresh, (h rd hrd).normal⟩
  · exact ⟨(h rd hrd).name, (h rd hrd).status, (h rd hrd).fresh, (h rd hrd).normal⟩

/-- A pass with a stale copy leaves the stored object alone; any other pass is a pass on the stored
object. -/
theorem Reading.Fits.finish_eq {rd : Reading} {w : Cluster} (h : rd.Fits w) (a : Answers) :
    (rd.stale = true ∧
        rd.finish a w = { (reconcile (rd.answers a) (rd.view w)).1 with kvStore := w.kvStore }) ∨
      rd.stale = false ∧ rd.finish a w = (reconcile a w).1 := by
  cases hstale : rd.stale with
  | true => exact .inl ⟨rfl, by simp [finish, hstale]⟩
  | false =>
    have ha : rd.answers a = a := by simp [answers, hstale]
    have hw : rd.view w = w := by
      unfold view
      rw [h.fresh hstale]
    exact .inr ⟨rfl, by simp [finish, hstale, ha, hw]⟩

/-- Edits are admitted in `Normal` only, so a stale copy is in `Normal`. -/
theorem Reading.Fits.phase_view {rd : Reading} {w : Cluster} (h : rd.Fits w)
    (hstale : rd.stale = true) : (rd.view w).kvStore.status.phase = .normal := by
  rw [show (rd.view w).kvStore = rd.kvStore from rfl, h.status]
  exact h.normal hstale

/-! ### The status -/

/-- The persisted status is well-formed. -/
structure KVStore.WellFormed (k : KVStore) : Prop where
  complete : k.status.phase ≠ .scaleComplete
  target : k.status.phase ≠ .normal → k.status.targetShards = k.spec.shards
  moving : k.status.phase = .stoppingWrites ∨ k.status.phase = .redistributingKeys ∨
      k.status.phase = .finalizingScale →
    1 ≤ k.status.currentShards ∧ k.status.currentShards ≠ k.status.targetShards
  resuming : k.status.phase = .resumingWrites → k.status.currentShards = k.status.targetShards

/-- The invariant: a scale operation also changes the number of shards while it is prepared. -/
structure KVStore.Sound (k : KVStore) : Prop extends k.WellFormed where
  preparing : k.status.phase = .preparingScale → k.status.currentShards ≠ k.status.targetShards

section Status

variable {k : KVStore} {a : Answers} {w : Cluster}

theorem KVStore.Sound.withStatus {k' : KVStore} (hk : k.Sound) (hspec : k.spec = k'.spec) :
    ({ k' with status := k.status } : KVStore).Sound := by
  have htarget := hk.target
  rw [hspec] at htarget
  exact ⟨⟨hk.complete, htarget, hk.moving, hk.resuming⟩, hk.preparing⟩

theorem KVStore.Sound.updateStatus (h : w.kvStore.Sound) (ok : Bool) (hk : k.Sound)
    (hspec : k.spec = w.kvStore.spec) : (updateStatus ok k w).kvStore.Sound := by
  unfold Kvctl.updateStatus
  split
  · exact hk.withStatus hspec
  · exact h

theorem KVStore.Sound.setMessage (h : k.Sound) (message : String) : (k.setMessage message).Sound :=
  ⟨⟨h.complete, h.target, h.moving, h.resuming⟩, h.preparing⟩

/-- The phases in which data moves come one after another with the same numbers of shards. -/
theorem KVStore.Sound.setPhase (h : k.Sound) (hne : k.status.phase ≠ .normal) {p : Phase}
    (hp : p = .stoppingWrites ∨ p = .redistributingKeys ∨ p = .finalizingScale)
    (hpos : 1 ≤ k.status.currentShards)
    (hmove : k.status.currentShards ≠ k.status.targetShards) (message : String) :
    (k.setPhase p message).Sound := by
  refine ⟨⟨?_, fun _ => h.target hne, fun _ => ⟨hpos, hmove⟩, ?_⟩, fun _ => hmove⟩
  all_goals
    intro hc
    change p = _ at hc
    subst hc
    simp at hp

/-- A scale operation is over, or about to be, with all shards wanted. -/
theorem KVStore.Sound.setCurrent (h : k.Sound) (hne : k.status.phase ≠ .normal) {p : Phase}
    (hp : p = .normal ∨ p = .resumingWrites) (message : String) :
    (k.setPhase p message).setCurrent.Sound := by
  refine ⟨⟨?_, fun _ => h.target hne, ?_, fun _ => rfl⟩, ?_⟩
  all_goals
    intro hc
    rcases hp with rfl | rfl <;> simp [KVStore.setPhase, KVStore.setCurrent] at hc

theorem sound_prepareScale (hw : w.kvStore.Sound) (hk : k.Sound)
    (hspec : k.spec = w.kvStore.spec) (hp : k.status.phase = .preparingScale) :
    (prepareScale k a w).1.kvStore.Sound := by
  have hne : k.status.phase ≠ .normal := by rw [hp]; decide
  rcases prepareScale_cases k a w with ⟨message, heq⟩ | ⟨-, heq⟩ | ⟨hzero, heq⟩ <;> rw [heq]
  · exact hw.updateStatus _ (hk.setMessage _) hspec
  · exact hw.updateStatus _ (hk.setCurrent hne (.inl rfl) _) hspec
  · have hpos := Nat.one_le_iff_ne_zero.2 hzero
    exact hw.updateStatus _ (hk.setPhase hne (.inl rfl) hpos (hk.preparing hp) _) hspec

theorem sound_stopWrites (hw : w.kvStore.Sound) (hp : w.phase = .stoppingWrites) :
    (stopWrites w.kvStore a w).1.kvStore.Sound := by
  have hne : w.kvStore.status.phase ≠ .normal := fun hn => nomatch hn.symm.trans hp
  obtain ⟨hpos, hmove⟩ := hw.moving (.inl hp)
  rcases stopWrites_cases w.kvStore a w with ⟨message, heq⟩ | ⟨-, heq⟩ <;> rw [heq]
  · exact hw.updateStatus _ (hw.setMessage _) rfl
  · exact hw.updateStatus _ (hw.setPhase hne (.inr (.inl rfl)) hpos hmove _) rfl

theorem sound_redistributeKeys (hw : w.kvStore.Sound) (hp : w.phase = .redistributingKeys) :
    (redistributeKeys w.kvStore a w).1.kvStore.Sound := by
  have hne : w.kvStore.status.phase ≠ .normal := fun hn => nomatch hn.symm.trans hp
  obtain ⟨hpos, hmove⟩ := hw.moving (.inr (.inl hp))
  rcases redistributeKeys_cases w.kvStore a w with ⟨message, heq⟩ | heq <;> rw [heq]
  · exact hw.updateStatus _ (hw.setMessage _) rfl
  · exact hw.updateStatus _ (hw.setPhase hne (.inr (.inr rfl)) hpos hmove _) rfl

theorem sound_resumeAfterScale (hw : w.kvStore.Sound) (hk : k.Sound)
    (hspec : k.spec = w.kvStore.spec) (hp : k.status.phase = .finalizingScale) :
    (resumeAfterScale k a w).kvStore.Sound := by
  have hne : k.status.phase ≠ .normal := by rw [hp]; decide
  rcases resumeAfterScale_cases k a w with heq | heq <;> rw [heq]
  · exact hw
  · refine KVStore.Sound.updateStatus ?_ _ (hk.setCurrent hne (.inr rfl) _) ?_
    · exact hw
    · exact hspec

theorem sound_finalizeScale (hw : w.kvStore.Sound) (hp : w.phase = .finalizingScale) :
    (finalizeScale w.kvStore a w).kvStore.Sound := by
  have hkv := (swept_deleteGroups (k := w.kvStore) (a := a) (w := w)).kvStore
  unfold finalizeScale
  simp only
  split_ifs
  · exact sound_resumeAfterScale hw hw rfl hp
  · rw [hkv]; exact hw
  · exact sound_resumeAfterScale (hkv.symm ▸ hw) hw (by rw [hkv]) hp

theorem sound_resumeWrites (hw : w.kvStore.Sound) (hp : w.phase = .resumingWrites) :
    (resumeWrites w.kvStore a w).1.kvStore.Sound := by
  have hne : w.kvStore.status.phase ≠ .normal := fun hn => nomatch hn.symm.trans hp
  rcases resumeWrites_cases w.kvStore a w with ⟨message, heq⟩ | ⟨-, heq⟩ <;> rw [heq]
  · exact hw.updateStatus _ (hw.setMessage _) rfl
  · exact hw.updateStatus _ (hw.setCurrent hne (.inl rfl) _) rfl

/-- The status at the start of a scale operation counts the shards that exist. -/
theorem sound_startScale (hne : w.statefulSets.length ≠ w.kvStore.spec.shards) :
    w.startScale.Sound :=
  ⟨⟨nofun, fun _ => rfl, by simp [Cluster.startScale], nofun⟩, fun _ => hne⟩

theorem sound_scaleUp (hw : w.kvStore.Sound)
    (hne : w.statefulSets.length ≠ w.kvStore.spec.shards) : (scaleUp a w).kvStore.Sound := by
  rw [kvStore_scaleUp]
  exact hw.updateStatus _ (sound_startScale hne) rfl

theorem sound_scaleDown (hw : w.kvStore.Sound)
    (hne : w.statefulSets.length ≠ w.kvStore.spec.shards) : (scaleDown a w).1.kvStore.Sound := by
  have hstart := hw.updateStatus a.startStatus (sound_startScale hne) rfl
  have hspec : (updateStatus a.startStatus w.startScale w).kvStore.spec = w.kvStore.spec := by
    unfold updateStatus
    split <;> rfl
  unfold scaleDown
  simp only
  split_ifs
  · rw [kvStore_updateConfigMap]; exact hstart
  · refine sound_prepareScale ?_ (sound_startScale hne) ?_ rfl
    · rw [kvStore_updateConfigMap]; exact hstart
    · rw [kvStore_updateConfigMap, hspec]; rfl

theorem sound_reconcilePhase (hw : w.kvStore.Sound) : (reconcilePhase a w).1.kvStore.Sound := by
  unfold reconcilePhase
  cases hp : w.kvStore.status.phase with
  | normal =>
    simp only
    split_ifs with hup hdown
    · exact sound_scaleUp hw hup.ne
    · exact sound_scaleDown hw hdown.ne'
    · exact hw
  | preparingScale => exact sound_prepareScale hw hw rfl hp
  | stoppingWrites => exact sound_stopWrites hw hp
  | redistributingKeys => exact sound_redistributeKeys hw hp
  | finalizingScale => exact sound_finalizeScale hw hp
  | resumingWrites => exact sound_resumeWrites hw hp
  | scaleComplete => exact hw

theorem sound_reconcile (hw : w.kvStore.Sound) : (reconcile a w).1.kvStore.Sound := by
  rcases reconcile_cases a w with ⟨f, -, heq⟩ | ⟨-, -, heq⟩ <;> rw [heq]
  · exact hw
  · exact sound_reconcilePhase hw

end Status

theorem Racing.Coherent.sound_next {s s' : Racing} {l : Racing.Label} (h : s.Coherent)
    (hs : s.cluster.kvStore.Sound) (hst : s.next l = some s') : s'.cluster.kvStore.Sound := by
  rcases Racing.next_cases hst with ⟨-, rfl⟩ | ⟨a, rd, -, hrd, rfl⟩ |
    ⟨spec, labels, -, hadmitted, rfl⟩ | ⟨x, n, -, rfl⟩ | ⟨xs, ys, zs, -, -, -, -, rfl⟩
  · exact hs
  · rcases (h rd hrd).finish_eq a with ⟨-, heq⟩ | ⟨-, heq⟩ <;> simp only [heq]
    · exact hs
    · exact sound_reconcile hs
  · have hp := phase_of_admitted hadmitted
    exact ⟨⟨hs.complete, fun hne => absurd hp hne, hs.moving, hs.resuming⟩, hs.preparing⟩
  · exact hs
  · exact hs

/-- **The persisted status is well-formed in every reachable state.**  For every run from the
creation of a `KVStore` object, with any failing calls, any answers of the shards and any admitted
edits, also while a `Reconcile` is under way: the phase is never `ScaleComplete`; outside `Normal`
the target is the spec; while data moves the number of shards changes and was not 0; when writes
are resumed the numbers are equal. -/
theorem wellFormed_of_reached (name : String) (labels : Labels) (spec : KVStoreSpec) (s : Racing)
    (h : Racing.machine.Reached (Racing.created name labels spec) s) :
    s.cluster.kvStore.WellFormed := by
  have hinv : s.Coherent ∧ s.cluster.kvStore.Sound := by
    refine h.invariant (I := fun s => s.Coherent ∧ s.cluster.kvStore.Sound) ⟨nofun, ?_⟩
      fun s l s' hi _ hst => ⟨hi.1.next hst, hi.1.sound_next hi.2 hst⟩
    exact ⟨⟨nofun, fun hne => absurd rfl hne, by simp [Racing.created, created], nofun⟩, nofun⟩
  exact hinv.2.toWellFormed

/-- A store with two shards loses one of them, while an edit races with the pass that is about to
start the scale operation. -/
theorem wellFormed_of_reached_race :
    ∃ s, Racing.machine.Reached (Racing.created "kv" ∅ ⟨2, 1⟩) s ∧
      s.cluster.phase = .finalizingScale ∧ s.cluster.kvStore.WellFormed := by
  obtain ⟨s, hs, hp⟩ : ∃ s, Racing.machine.Reached (Racing.created "kv" ∅ ⟨2, 1⟩) s ∧
      s.cluster.phase = .finalizingScale :=
    ⟨_, Machine.Reached.of_run [.get, .finish .ok, .change (.ready "kv-shard-0-replica" 1),
      .change (.ready "kv-shard-1-replica" 1), .get, .finish .ok, .change (.edit ⟨3, 1⟩ ∅),
      .change (.edit ⟨2, 1⟩ ∅), .get, .change (.edit ⟨1, 1⟩ ∅), .finish .ok, .get, .finish .ok,
      .get, .finish .ok, .get, .finish .ok] rfl, rfl⟩
  exact ⟨s, hs, hp, wellFormed_of_reached "kv" ∅ ⟨2, 1⟩ s hs⟩

end Kvctl

end ShardedKvs
