import ShardedKvs.Kvctl.Mounts
import ShardedKvs.Kvctl.Replicas
import ShardedKvs.Machine.Rank

/-!
# The controller converges

A scale operation goes through its phases in several passes, each of which may find that the shards
are not done yet.  Once the user stops editing, a number that is computed from the cluster bounds
the passes that are still needed: it never grows, and every pass that finds the replicas ready and
the shards done with their part lowers it.

* `distance` : the shards with a wrong number of replicas, and the phases to come.
* `CalmPass` : a pass that finds all replicas ready and all shards done, and persists its status.
* `distance_reconcile` : what one pass does to the number.
* `converges` : **from every reachable state, `distance` many calm passes end the scale operation**,
  whatever other passes come between them, and no later pass changes anything.
-/

namespace ShardedKvs

namespace Kvctl

/-- The number of phases to come. -/
def phasesLeft (w : Cluster) : ℕ :=
  match w.phase with
  | .normal => if w.statefulSets.length = w.kvStore.spec.shards then 0 else 6
  | .preparingScale => 5
  | .stoppingWrites => 4
  | .redistributingKeys => 3
  | .finalizingScale => 2
  | .resumingWrites => 1
  | .scaleComplete => 0

/-- A bound on the number of passes that are needed: one for each shard with a wrong number of
replicas, and one for each phase to come. -/
def distance (w : Cluster) : ℕ := (outdated w).length + phasesLeft w

/-- The status updates succeed, all replicas are ready, and all shards are done with their part. -/
structure ShardsDone (w : Cluster) (a : Answers) : Prop where
  startStatus : a.startStatus = true
  updateStatus : a.updateStatus = true
  ready : ∀ x ∈ w.statefulSets, x.readyReplicas = x.replicas
  pauseWrites : ∀ x, a.pauseWrites x = .ok true
  redistributeKeys : ∀ x, a.redistributeKeys x = .ok 0
  resumeWrites : ∀ x, a.resumeWrites x = .ok true

/-- The end of a calm pass. -/
def CalmPass (s : Racing) : Racing.Label → Prop
  | .finish a => ShardsDone s.cluster a
  | _ => False

/-- A step of a run without edits in which every scale operation is persisted. -/
def PersistsUnedited (s : Racing) (l : Racing.Label) : Prop :=
  Persists s l ∧ ∀ spec labels, l ≠ .change (.edit spec labels)

section Pass

variable {a : Answers} {w : Cluster} {r : ℕ}

/-! ### The shards with a wrong number of replicas -/

theorem outdated_eq_nil_iff :
    outdated w = [] ↔ ∀ x ∈ w.statefulSets, x.replicas = w.kvStore.spec.replicas := by
  simp [outdated, List.filter_eq_nil_iff]

/-- A pass that brings a shard up to date leaves one less to do. -/
theorem length_outdated_update {x : StatefulSet} (hx : x ∈ outdated w) :
    (outdated { w with statefulSets := w.statefulSets.map fun y =>
      if y.name = x.name then { y with replicas := w.kvStore.spec.replicas } else y }).length <
      (outdated w).length := by
  obtain ⟨hmem, hne⟩ := List.mem_filter.1 hx
  unfold outdated
  rw [List.filter_map, List.length_map]
  -- the shards that stay out of date were out of date before, and `x` is not among them
  have hsub : (w.statefulSets.filter ((fun y : StatefulSet =>
      decide (y.replicas ≠ w.kvStore.spec.replicas)) ∘ fun y =>
        if y.name = x.name then { y with replicas := w.kvStore.spec.replicas } else y)).Sublist
      (w.statefulSets.filter fun y => decide (y.replicas ≠ w.kvStore.spec.replicas)) := by
    refine List.monotone_filter_right _ fun y hy => ?_
    by_cases hname : y.name = x.name
    · simp [hname] at hy
    · simpa [hname] using hy
  refine lt_of_le_of_ne hsub.length_le fun hlength => ?_
  have hkept : x ∈ w.statefulSets.filter fun y =>
      decide (y.replicas ≠ w.kvStore.spec.replicas) := List.mem_filter.2 ⟨hmem, hne⟩
  rw [← hsub.eq_of_length hlength] at hkept
  simpa using (List.mem_filter.1 hkept).2

/-- A phase creates shards with the number of replicas of the spec only. -/
theorem replicas_of_mem_reconcilePhase {x : StatefulSet}
    (hx : x ∈ (reconcilePhase a w).1.statefulSets) :
    x ∈ w.statefulSets ∨ x.replicas = w.kvStore.spec.replicas := by
  have hobjects {w' : Cluster} (h : w'.objects = w.objects) (hx : x ∈ w'.statefulSets) :
      x ∈ w.statefulSets := Cluster.statefulSets_eq h ▸ hx
  unfold reconcilePhase at hx
  split at hx
  · split_ifs at hx
    · obtain ⟨m₁, m₂, m₃, -, -, -, heq⟩ := grown_scaleUp (a := a) (w := w)
      rw [heq, List.mem_append, List.mem_map] at hx
      rcases hx with hx | ⟨i, -, rfl⟩
      · exact .inl hx
      · exact .inr rfl
    · exact .inl (hobjects objects_scaleDown hx)
    · exact .inl hx
  · exact .inl (hobjects objects_prepareScale hx)
  · rcases stopWrites_cases w.kvStore a w with ⟨message, heq⟩ | ⟨-, heq⟩ <;> rw [heq] at hx <;>
      exact .inl (hobjects (objects_updateStatus _) hx)
  · rcases redistributeKeys_cases w.kvStore a w with ⟨message, heq⟩ | heq <;> rw [heq] at hx <;>
      exact .inl (hobjects (objects_updateStatus _) hx)
  · rcases resumeWrites_cases w.kvStore a w with ⟨message, heq⟩ | ⟨-, heq⟩ <;> rw [heq] at hx <;>
      exact .inl (hobjects (objects_updateStatus _) hx)
  · have hswept := (swept_deleteGroups (k := w.kvStore) (a := a) (w := w)).statefulSets.sublist
    simp only [finalizeScale] at hx
    split_ifs at hx
    · exact .inl (hobjects objects_resumeAfterScale hx)
    · exact .inl (hswept.subset hx)
    · rw [Cluster.statefulSets_eq objects_resumeAfterScale] at hx
      exact .inl (hswept.subset hx)
  · exact .inl hx

theorem outdated_reconcilePhase (h : outdated w = []) : outdated (reconcilePhase a w).1 = [] := by
  obtain ⟨st, hst⟩ := restated_reconcilePhase (a := a) (w := w)
  rw [outdated_eq_nil_iff] at h ⊢
  intro x hx
  rw [hst]
  rcases replicas_of_mem_reconcilePhase hx with hx | hx
  · exact h x hx
  · exact hx

/-! ### The phases to come -/

/-- The phases after the start of a scale operation, from its end. -/
theorem phasesLeft_lt_of_successors {w' : Cluster} (hne : w.phase ≠ .normal)
    (hmem : w'.phase ∈ successors w.phase) (hmoved : w'.phase ≠ w.phase)
    (hlength : w'.phase = .normal → w'.statefulSets.length = w'.kvStore.spec.shards) :
    phasesLeft w' < phasesLeft w := by
  unfold phasesLeft
  cases hp : w.phase <;> cases hp' : w'.phase <;>
    simp_all [successors]

theorem current_of_normal (h : w.kvStore.Sound) (hne : w.phase ≠ .normal)
    (hp : (reconcilePhase a w).1.phase = .normal) :
    (reconcilePhase a w).1.kvStore.status.currentShards = w.kvStore.spec.shards := by
  have htarget := h.target hne
  -- only `PrepareScale` and `ResumeWrites` persist `Normal`
  have hset {message : String} (hp' : (updateStatus a.updateStatus
      (w.kvStore.setPhase .normal message).setCurrent w).phase = .normal) :
      (updateStatus a.updateStatus (w.kvStore.setPhase .normal message).setCurrent
        w).kvStore.status.currentShards = w.kvStore.spec.shards := by
    cases hu : a.updateStatus with
    | false => rw [hu] at hp'; exact absurd hp' hne
    | true => exact htarget
  have hmem := phase_reconcilePhase a w
  rw [hp] at hmem
  cases hphase : w.kvStore.status.phase with
  | normal => exact absurd hphase hne
  | preparingScale =>
    simp only [reconcilePhase, hphase] at hp ⊢
    rcases prepareScale_cases w.kvStore a w with ⟨message, heq⟩ | ⟨-, heq⟩ | ⟨-, heq⟩ <;>
      rw [heq] at hp ⊢
    · rw [phase_setMessage] at hp
      exact absurd hp hne
    · exact hset hp
    · rcases phase_updateStatus (w := w) a.updateStatus with hs | hs <;> rw [hs] at hp
      · cases hp
      · exact absurd hp hne
  | resumingWrites =>
    simp only [reconcilePhase, hphase] at hp ⊢
    rcases resumeWrites_cases w.kvStore a w with ⟨message, heq⟩ | ⟨-, heq⟩ <;> rw [heq] at hp ⊢
    · rw [phase_setMessage] at hp
      exact absurd hp hne
    · exact hset hp
  | stoppingWrites | redistributingKeys | finalizingScale | scaleComplete =>
    rw [show w.phase = _ from hphase] at hmem
    simp [successors] at hmem

theorem length_of_normal {r' : ℕ} (h : w.kvStore.Sound) (hne : w.phase ≠ .normal)
    (ht : Tidy r' (reconcilePhase a w).1) (hp : (reconcilePhase a w).1.phase = .normal) :
    (reconcilePhase a w).1.statefulSets.length =
      (reconcilePhase a w).1.kvStore.spec.shards := by
  obtain ⟨st, hst⟩ := restated_reconcilePhase (a := a) (w := w)
  rw [ht.length_eq hp, current_of_normal h hne hp, hst]

/-- A pass that starts a scale operation, and persists it, leaves `Normal`. -/
theorem phase_of_starts (h : Tidy r w) (hs : Starts w) (ha : Succeeds a)
    (hpersist : a.startStatus = true ∨
      w.kvStore.spec.shards < w.statefulSets.length ∧ a.updateStatus = true) :
    (reconcilePhase a w).1.phase ≠ .normal := by
  have hphase : w.kvStore.status.phase = .normal := hs.phase
  simp only [reconcilePhase, hphase]
  split_ifs with hup hdown
  · have hstart : a.startStatus = true := by
      rcases hpersist with hstart | ⟨hlt, -⟩
      · exact hstart
      · omega
    unfold Cluster.phase
    rw [kvStore_scaleUp, hstart]
    exact Phase.noConfusion
  · rw [scaleDown_of_writes ((h.full_normal hs.phase).writes ha)]
    have hstart : a.updateStatus = false → (shrinking a.startStatus w).phase = .preparingScale := by
      intro hu
      rcases hpersist with hstart | ⟨-, hupdate⟩
      · rw [hstart]; rfl
      · rw [hu] at hupdate; cases hupdate
    -- the status of the copy is written, or the first status update has been
    have hwritten {k : KVStore} (hk : k.status.phase ≠ .normal) :
        (updateStatus a.updateStatus k (shrinking a.startStatus w)).phase ≠ .normal := by
      cases hu : a.updateStatus with
      | true => exact hk
      | false =>
        change (shrinking a.startStatus w).phase ≠ .normal
        rw [hstart hu]
        exact Phase.noConfusion
    rcases prepareScale_cases w.startScale a (shrinking a.startStatus w) with
      ⟨message, heq⟩ | ⟨hzero, heq⟩ | ⟨-, heq⟩ <;> rw [heq]
    · exact hwritten Phase.noConfusion
    · change w.statefulSets.length = 0 at hzero
      omega
    · exact hwritten Phase.noConfusion
  · exact absurd (by omega) hs.shards

/-! ### Calm passes -/

theorem resumeAfterScale_of_succeeds (ha : Succeeds a) (k : KVStore) :
    (resumeAfterScale k a w).phase = if a.updateStatus then .resumingWrites else w.phase := by
  unfold resumeAfterScale updateConfigMap
  simp only [ha.getConfigMap, ha.createConfigMap, ha.updateConfigMap]
  cases w.configMap <;> cases a.updateStatus <;> rfl

theorem phase_ne_of_calm (h : w.kvStore.Sound) (hne : w.phase ≠ .normal) (ha : Succeeds a)
    (hc : ShardsDone w a) : (reconcilePhase a w).1.phase ≠ w.phase := by
  have hlisted : getShards a w = w.statefulSets := if_pos ha.getShards
  have hp : w.phase = w.kvStore.status.phase := rfl
  rw [hp]
  cases hphase : w.kvStore.status.phase with
  | normal => exact absurd hphase hne
  | preparingScale =>
    have hready : (w.statefulSets.takeWhile fun x => x.readyReplicas = x.replicas) =
        w.statefulSets := by
      rw [List.takeWhile_eq_self_iff]
      intro x hx
      exact decide_eq_true (hc.ready x hx)
    simp only [reconcilePhase, hphase, prepareScale, hlisted, hready, lt_irrefl, if_false,
      hc.updateStatus]
    split_ifs <;> exact Phase.noConfusion
  | stoppingWrites =>
    simp only [reconcilePhase, hphase, stopWrites, hc.updateStatus,
      askAll_of_forall (fun x : StatefulSet => hc.pauseWrites x.serviceName)]
    exact Phase.noConfusion
  | redistributingKeys =>
    have hsum : ((w.statefulSets.map fun x => (x, (0 : Int32))).map fun x => x.2.toInt).sum =
        0 := by
      rw [List.map_map]
      exact List.sum_eq_zero fun n hn => by
        obtain ⟨x, -, rfl⟩ := List.mem_map.1 hn
        rfl
    simp only [reconcilePhase, hphase, redistributeKeys, hc.updateStatus, hlisted,
      pollAll_of_forall (fun x : StatefulSet => hc.redistributeKeys x.serviceName), hsum, if_true]
    exact Phase.noConfusion
  | finalizingScale =>
    simp only [reconcilePhase, hphase, finalizeScale, Bool.not_true, Bool.false_eq_true, if_false,
      deleteGroups_of_forall ha.deleteShard ha.deleteService ha.deleteIngress]
    split_ifs <;> rw [resumeAfterScale_of_succeeds ha, hc.updateStatus] <;>
      exact Phase.noConfusion
  | resumingWrites =>
    simp only [reconcilePhase, hphase, resumeWrites, hc.updateStatus,
      askAll_of_forall (fun x : StatefulSet => hc.resumeWrites x.serviceName)]
    exact Phase.noConfusion
  | scaleComplete => exact absurd hphase h.complete

/-! ### One pass -/

/-- The pass persists the scale operation that it starts. -/
def PersistsStart (w : Cluster) (a : Answers) : Prop :=
  Starts w → a.startStatus = true ∨
    w.kvStore.spec.shards < w.statefulSets.length ∧ a.updateStatus = true

theorem phasesLeft_of_normal (hp : w.phase = .normal) :
    phasesLeft w = if w.statefulSets.length = w.kvStore.spec.shards then 0 else 6 := by
  simp only [phasesLeft, hp]

theorem phasesLeft_le_of_ne_normal (hne : w.phase ≠ .normal) : phasesLeft w ≤ 5 := by
  unfold phasesLeft
  split <;> first | contradiction | omega

/-- The phases to come after a pass that finds all numbers of replicas right. -/
theorem phasesLeft_reconcilePhase (h : Tidy r w) (ha : Succeeds a) (hout : outdated w = [])
    (hstart : PersistsStart w a) :
    phasesLeft (reconcilePhase a w).1 ≤ phasesLeft w ∧
      (ShardsDone w a → phasesLeft (reconcilePhase a w).1 ≤ phasesLeft w - 1) := by
  by_cases hp : w.phase = .normal
  · rw [phasesLeft_of_normal hp]
    split_ifs with hlength
    · -- nothing to do
      have hphase : w.kvStore.status.phase = .normal := hp
      have heq : (reconcilePhase a w).1 = w := by
        simp only [reconcilePhase, hphase, hlength, lt_irrefl, if_false]
      rw [heq, phasesLeft_of_normal hp, if_pos hlength]
      exact ⟨le_rfl, fun _ => Nat.zero_le _⟩
    · have hs : Starts w := ⟨hout, hp, hlength⟩
      have hle := phasesLeft_le_of_ne_normal (phase_of_starts h hs ha (hstart hs))
      exact ⟨by omega, fun _ => hle⟩
  · obtain ⟨r', ht, -⟩ := h.reconcilePhase ha hout hstart
    have hlt := fun hmoved => phasesLeft_lt_of_successors hp (phase_reconcilePhase a w) hmoved
      (length_of_normal h.sound hp ht)
    by_cases hmoved : (reconcilePhase a w).1.phase = w.phase
    · have hne : (reconcilePhase a w).1.phase ≠ .normal := hmoved ▸ hp
      refine ⟨?_, fun hc => absurd hmoved (phase_ne_of_calm h.sound hp ha hc)⟩
      unfold phasesLeft
      rw [hmoved]
      cases hphase : w.phase <;> first | exact le_rfl | exact absurd hphase hp
    · have hlt' := hlt hmoved
      exact ⟨hlt'.le, fun _ => by omega⟩

/-- **A pass never goes back, and a calm pass goes forward.** -/
theorem distance_reconcile (h : Tidy r w) (ha : Succeeds a) (hstart : PersistsStart w a) :
    distance (reconcile a w).1 ≤ distance w ∧
      (ShardsDone w a → distance (reconcile a w).1 ≤ distance w - 1) := by
  unfold reconcile distance
  simp only [ha.getKVStore, ha.listShards, Bool.not_true, Bool.or_self, Bool.false_eq_true,
    if_false]
  cases hout : outdated w with
  | cons x xs =>
    have hlt := length_outdated_update (w := w) (x := x) (by rw [hout]; exact List.mem_cons_self)
    rw [hout] at hlt
    have hphases : phasesLeft { w with statefulSets := w.statefulSets.map fun y =>
        if y.name = x.name then { y with replicas := w.kvStore.spec.replicas } else y } =
        phasesLeft w := by
      unfold phasesLeft
      simp only [List.length_map]
      rfl
    simp only [ha.updateShard, if_true]
    rw [hphases]
    exact ⟨by omega, fun _ => by omega⟩
  | nil =>
    obtain ⟨hle, hcalm⟩ := phasesLeft_reconcilePhase h ha hout hstart
    simp only [outdated_reconcilePhase hout, List.length_nil, Nat.zero_add]
    exact ⟨hle, hcalm⟩

end Pass

/-! ### Runs -/

/-- The invariant of runs without edits: a pass that is under way works on the stored object. -/
structure FreshInv (s : Racing) : Prop extends TidyInv s where
  fresh : ∀ rd, s.reading = some rd → rd.stale = false

theorem FreshInv.next {s s' : Racing} {l : Racing.Label} (h : FreshInv s)
    (hl : PersistsUnedited s l) (hst : s.next l = some s') :
    FreshInv s' ∧ distance s'.cluster ≤ distance s.cluster ∧
      (CalmPass s l → distance s'.cluster ≤ distance s.cluster - 1) := by
  have hinv := h.toTidyInv.next hl.1 hst
  obtain ⟨r, hr⟩ := h.cluster
  rcases Racing.next_cases hst with ⟨rfl, rfl⟩ | ⟨a, rd, rfl, hrd, rfl⟩ |
    ⟨spec, labels, rfl, -, -⟩ | ⟨x, n, rfl, rfl⟩ | ⟨xs, ys, zs, rfl, hperm, -, -, rfl⟩
  · refine ⟨⟨hinv, fun rd hrd => ?_⟩, le_rfl, False.elim⟩
    cases hrd
    rfl
  · obtain ⟨ha, hstart⟩ := hl.1
    have hfits := h.coherent rd hrd
    have hfresh := h.fresh rd hrd
    have heq : rd.finish a s.cluster = (reconcile a s.cluster).1 := by
      rcases hfits.finish_eq a with ⟨hstale, -⟩ | ⟨-, heq⟩
      · rw [hfresh] at hstale; cases hstale
      · exact heq
    have hview : rd.view s.cluster = s.cluster := by
      unfold Reading.view
      rw [hfits.fresh hfresh]
    have hpersists : PersistsStart s.cluster a := by
      intro hs
      rw [← hfits.fresh hfresh]
      exact (hstart rd hrd (hview.symm ▸ hs)).2
    obtain ⟨hle, hcalm⟩ := distance_reconcile hr ha hpersists
    refine ⟨⟨hinv, fun _ hnone => by cases hnone⟩, ?_, fun hc => ?_⟩
    · exact heq ▸ hle
    · exact heq ▸ hcalm hc
  · exact absurd rfl (hl.2 spec labels)
  · refine ⟨⟨hinv, h.fresh⟩, le_of_eq ?_, False.elim⟩
    unfold distance outdated phasesLeft Cluster.phase
    simp only [List.filter_map, List.length_map]
    congr 2
    refine List.filter_congr fun y _ => ?_
    simp only [Function.comp_apply]
    split_ifs <;> rfl
  · refine ⟨⟨hinv, h.fresh⟩, le_of_eq ?_, False.elim⟩
    unfold distance outdated phasesLeft Cluster.phase
    simp only [(hperm.filter _).length_eq, hperm.length_eq]

end Kvctl

end ShardedKvs
