import ShardedKvs.Kvctl.Stock

/-!
# Preparing a scale operation

A pass from `Normal` persists `PreparingScale` first and then writes the ConfigMap, the Ingresses,
the Services and the StatefulSets.  When one of these calls fails the pass ends, and the next one
enters through `PrepareScale`, which does not write any of them.

* `Pass.Prepared` : when the pass leaves `PreparingScale`, the objects of every shard below
  `TargetShards` exist and the ConfigMap describes the scale operation.
* `Careful` : Lists succeed, the labels of the `KVStore` object do not set the group, and a pass
  that persists `PreparingScale` also writes everything.
* `prepared_of_careful` : **every pass of a careful run is prepared**.
* `not_prepared` : a StatefulSet that could not be created is never created.
-/

namespace ShardedKvs

namespace Kvctl

/-- The ConfigMap describes a scale operation from `currentShards` to `targetShards`. -/
def Describes (name : String) (currentShards targetShards : ℕ) (c : KVStoreConfig) : Prop :=
  if currentShards = 0 then
    c.members = (List.range targetShards).map (shardName name) ∧ c.newShards = []
  else
    c.members = (List.range currentShards).map (shardName name) ∧
      c.newShards.map KVStoreShard.name = (List.range targetShards).map (shardName name)

/-- The objects of every shard below `targetShards` exist, and the ConfigMap describes the scale
operation. -/
structure Prepared (name : String) (currentShards targetShards : ℕ) (w : Cluster) : Prop where
  statefulSets : ∀ i < targetShards, ∃ x ∈ w.statefulSets, x.name = setName name i
  services : ∀ i < targetShards, ∃ x ∈ w.services, x.name = shardName name i
  ingresses : ∀ i < targetShards, ∃ x ∈ w.ingresses, x.name = ingressName name i
  configMap : ∃ c, w.configMap = some c ∧ Describes name currentShards targetShards c

/-- When the pass leaves `PreparingScale`, the scale operation is prepared.  A scale-down can enter
and leave the phase in one pass. -/
def Pass.Prepared (p : Pass) : Prop :=
  match p.before.phase with
  | .preparingScale => p.after.phase ≠ .preparingScale →
      Kvctl.Prepared p.before.kvStore.name p.before.kvStore.status.currentShards
        p.before.kvStore.status.targetShards p.after
  | .normal => p.after.phase ≠ .normal → p.after.phase ≠ .preparingScale →
      Kvctl.Prepared p.before.kvStore.name p.after.kvStore.status.currentShards
        p.after.kvStore.status.targetShards p.after
  | _ => True

/-- All the calls that write the ConfigMap and the new objects succeed; a name that is taken makes
them fail. -/
structure Writes (w : Cluster) (a : Answers) : Prop where
  getConfigMap : a.getConfigMap = true
  createConfigMap : w.configMap = none → a.createConfigMap = true
  updateConfigMap : w.configMap ≠ none → a.updateConfigMap = true
  shards : ∀ i, w.statefulSets.length ≤ i → i < w.kvStore.spec.shards →
    a.createShard i = true ∧ ∀ x ∈ w.statefulSets, x.name ≠ setName w.kvStore.name i
  services : ∀ i, w.statefulSets.length ≤ i → i < w.kvStore.spec.shards →
    a.createService i = true ∧ ∀ x ∈ w.services, x.name ≠ shardName w.kvStore.name i
  ingresses : ∀ i, w.statefulSets.length ≤ i → i < w.kvStore.spec.shards →
    a.createIngress i = true ∧ ∀ x ∈ w.ingresses, x.name ≠ ingressName w.kvStore.name i

/-- The Lists of the pass succeed. -/
structure Lists (a : Answers) : Prop where
  listShards : a.listShards = true
  getShards : a.getShards = true
  getServices : a.getServices = true
  getIngresses : a.getIngresses = true

/-- The Lists of a pass succeed, and a pass that starts a scale operation and persists
`PreparingScale` writes everything; the user never sets the label `group`. -/
def Careful (s : State) : Label → Prop
  | .reconcile a => Lists a ∧
      (s.cluster.phase = .normal → a.getKVStore = true → outdated s.cluster = [] →
        s.cluster.statefulSets.length ≠ s.cluster.kvStore.spec.shards → a.startStatus = true →
        Writes s.cluster a)
  | .change (.edit _ labels) => labels.lookup "group" = none
  | _ => True

/-! ### The invariant -/

/-- The shards below this index have all their objects. -/
def lower (st : KVStoreStatus) (n : ℕ) : ℕ :=
  match st.phase with
  | .normal => n
  | .finalizingScale | .resumingWrites => st.targetShards
  | _ => max st.currentShards st.targetShards

/-- The StatefulSets have indices below this one. -/
def upper (st : KVStoreStatus) (n : ℕ) : ℕ :=
  match st.phase with
  | .normal => n
  | .resumingWrites => st.targetShards
  | _ => max st.currentShards st.targetShards

/-- The ConfigMap that a scale operation starts with. -/
def ConfigOf (k : KVStore) (w : Cluster) : Prop :=
  k.status.currentShards ≠ k.status.targetShards ∧
    ∃ replicas, w.configMap =
      some (kvConfig k.name replicas k.status.currentShards k.status.targetShards)

/-- The invariant of careful runs. -/
structure Inv (w : Cluster) : Prop where
  labels : w.kvStore.labels.lookup "group" = none
  stocked : Stocked w.kvStore.name (lower w.kvStore.status w.statefulSets.length)
    (upper w.kvStore.status w.statefulSets.length) w
  config : w.phase = .preparingScale → ConfigOf w.kvStore w

variable {k : KVStore} {a : Answers} {w : Cluster}

/-- A status update, for a status that fits the objects and the ConfigMap. -/
theorem Inv.updateStatus (h : Inv w) (ok : Bool) (hname : k.name = w.kvStore.name)
    (hstock : Stocked w.kvStore.name (lower k.status w.statefulSets.length)
      (upper k.status w.statefulSets.length) w)
    (hconfig : k.status.phase = .preparingScale → ConfigOf k w) :
    Inv (updateStatus ok k w) := by
  unfold Kvctl.updateStatus
  split
  · refine ⟨h.labels, hstock.of_objects_eq rfl, fun hp => ?_⟩
    have hc := hconfig hp
    unfold ConfigOf at hc ⊢
    rwa [hname] at hc
  · exact h

theorem Inv.setMessage (h : Inv w) (ok : Bool) (message : String) :
    Inv (Kvctl.updateStatus ok (w.kvStore.setMessage message) w) :=
  h.updateStatus ok rfl h.stocked h.config

/-- The objects in a known phase, where the bounds compute. -/
theorem Inv.stocked_at (h : Inv w) {p : Phase} (hp : w.phase = p) :
    Stocked w.kvStore.name (lower { w.kvStore.status with phase := p } w.statefulSets.length)
      (upper { w.kvStore.status with phase := p } w.statefulSets.length) w := by
  subst hp
  exact h.stocked

theorem Inv.stopWrites (h : Inv w) (hp : w.phase = .stoppingWrites) :
    Inv (stopWrites w.kvStore a w).1 := by
  rcases stopWrites_cases w.kvStore a w with ⟨message, heq⟩ | ⟨-, heq⟩ <;> rw [heq]
  · exact h.setMessage _ _
  · exact h.updateStatus _ rfl (h.stocked_at hp) nofun

theorem Inv.redistributeKeys (h : Inv w) (hp : w.phase = .redistributingKeys) :
    Inv (redistributeKeys w.kvStore a w).1 := by
  rcases redistributeKeys_cases w.kvStore a w with ⟨message, heq⟩ | heq <;> rw [heq]
  · exact h.setMessage _ _
  · -- from here on the shards to go may lose their objects
    exact h.updateStatus _ rfl ((h.stocked_at hp).widen (le_max_right _ _) le_rfl) nofun

theorem Inv.resumeWrites (h : Inv w) (hp : w.phase = .resumingWrites) :
    Inv (resumeWrites w.kvStore a w).1 := by
  have hs : Stocked w.kvStore.name w.kvStore.status.targetShards
      w.kvStore.status.targetShards w := h.stocked_at hp
  rcases resumeWrites_cases w.kvStore a w with ⟨message, heq⟩ | ⟨-, heq⟩ <;> rw [heq]
  · exact h.setMessage _ _
  · -- in `Normal` the number of shards is the number of StatefulSets
    have hs' := hs
    rw [← hs.length_eq] at hs'
    exact h.updateStatus _ rfl hs' nofun

/-! ### `PrepareScale` -/

theorem Inv.prepareScale (h : Inv w) (hname : k.name = w.kvStore.name)
    (hs : Stocked w.kvStore.name (max k.status.currentShards k.status.targetShards)
      (max k.status.currentShards k.status.targetShards) w)
    (hk : k.status.phase = .preparingScale) (hc : ConfigOf k w) :
    Inv (prepareScale k a w).1 := by
  rcases prepareScale_cases k a w with ⟨message, heq⟩ | ⟨hzero, heq⟩ | ⟨-, heq⟩ <;> rw [heq]
  · refine h.updateStatus _ hname ?_ fun _ => hc
    unfold lower upper KVStore.setMessage
    simp only [hk]
    exact hs
  · -- the first shards of a store: there are exactly `TargetShards` of them
    rw [hzero, Nat.zero_max] at hs
    have hs' := hs
    rw [← hs.length_eq] at hs'
    exact h.updateStatus _ hname hs' nofun
  · exact h.updateStatus _ hname hs nofun

theorem describes_kvConfig (name : String) (replicas : ℕ) {currentShards targetShards : ℕ}
    (h : currentShards ≠ targetShards) :
    Describes name currentShards targetShards
      (kvConfig name replicas currentShards targetShards) := by
  unfold Describes KVStoreConfig.members
  split_ifs with hzero
  · subst hzero
    rw [kvConfig_zero]
    exact ⟨map_name_shardConfig _ _ _, rfl⟩
  · rw [kvConfig_of_ne _ _ h hzero]
    exact ⟨map_name_shardConfig _ _ _, map_name_shardConfig _ _ _⟩

/-- Whatever `PrepareScale` decides, the objects and the ConfigMap are those of the scale
operation. -/
theorem prepared_prepareScale
    (hs : Stocked k.name (max k.status.currentShards k.status.targetShards)
      (max k.status.currentShards k.status.targetShards) w) (hc : ConfigOf k w) :
    Prepared k.name k.status.currentShards k.status.targetShards (prepareScale k a w).1 := by
  have hs' := (hs.of_objects_eq (objects_prepareScale (k := k) (a := a))).widen
    (le_max_right k.status.currentShards k.status.targetShards) le_rfl
  obtain ⟨hne, replicas, hconfig⟩ := hc
  refine ⟨fun i hi => ?_, hs'.services.has, hs'.ingresses.has, _,
    configMap_prepareScale.trans hconfig, describes_kvConfig _ _ hne⟩
  obtain ⟨x, hx, hname⟩ := hs'.sets.has i hi
  obtain ⟨y, hy, rfl⟩ := List.mem_map.1 hx
  exact ⟨y, hy, hname⟩

/-! ### `FinalizeScale` -/

/-- The ConfigMap matters only in `PreparingScale`. -/
theorem Inv.setConfig (h : Inv w) (hp : w.phase ≠ .preparingScale) (c : Option KVStoreConfig) :
    Inv { w with configMap := c } :=
  ⟨h.labels, h.stocked.of_objects_eq rfl, fun hc => absurd hc hp⟩

theorem Inv.resumeAfterScale (h : Inv w) (hk : w.kvStore = k) (hp : w.phase = .finalizingScale)
    (hs : Stocked k.name k.status.targetShards k.status.targetShards w) :
    Inv (resumeAfterScale k a w) := by
  subst hk
  rcases resumeAfterScale_cases w.kvStore a w with heq | heq <;> rw [heq]
  · exact h
  · have hne : w.phase ≠ .preparingScale := by rw [hp]; decide
    exact (h.setConfig hne _).updateStatus _ rfl (hs.of_objects_eq rfl) nofun

theorem Inv.finalizeScale (h : Inv w) (hp : w.phase = .finalizingScale) (hlists : Lists a) :
    Inv (finalizeScale w.kvStore a w) := by
  have hs : Stocked w.kvStore.name w.kvStore.status.targetShards
      (max w.kvStore.status.currentShards w.kvStore.status.targetShards) w := h.stocked_at hp
  unfold Kvctl.finalizeScale
  split_ifs with hup
  · rw [max_eq_right hup.le] at hs
    exact h.resumeAfterScale rfl hp hs
  · -- the deletions may stop half-way, and the next pass goes on with them
    have hswept := swept_deleteGroups (k := w.kvStore) (a := a) (w := w)
    have hs' := hs.swept le_rfl hswept
    rw [max_eq_left (not_lt.1 hup)] at hs'
    have hp' : (deleteGroups w.kvStore a w).1.phase = .finalizingScale := by
      unfold Cluster.phase
      rw [hswept.kvStore]
      exact hp
    have h' : Inv (deleteGroups w.kvStore a w).1 := by
      refine ⟨by rw [hswept.kvStore]; exact h.labels, ?_, fun hc => ?_⟩
      · unfold lower upper
        unfold Cluster.phase at hp'
        rw [hp', hswept.kvStore]
        exact hs'.widen le_rfl (le_max_left _ _)
      · rw [hp'] at hc; cases hc
    simp only
    split_ifs with hok
    · exact h'
    · rw [Bool.not_eq_true, Bool.not_eq_false'] at hok
      have hgone := (deleteGroups_of_true hlists.getShards hlists.getServices hlists.getIngresses
        hok).1
      exact h'.resumeAfterScale hswept.kvStore hp' (hs'.trimmed hgone)

/-! ### The start of a scale operation -/

theorem updateConfigMap_of_writes {w' : Cluster} (h : Writes w a)
    (hconfig : w'.configMap = w.configMap) : (updateConfigMap k a w').2 = true := by
  unfold updateConfigMap
  simp only [h.getConfigMap]
  cases hc : w'.configMap with
  | none => simp [h.createConfigMap (hconfig.symm.trans hc)]
  | some c =>
    have hne : w.configMap ≠ none := by rw [← hconfig, hc]; nofun
    simp [h.updateConfigMap hne]

/-- When nothing fails, the objects of all new shards are created. -/
theorem spinUp_of_writes {w' : Cluster} (h : Writes w a) (hobj : w'.objects = w.objects) :
    (spinUp w.startScale a w').statefulSets =
        w.statefulSets ++ (newIndices w.startScale).map (shard w.startScale) ∧
      (spinUp w.startScale a w').services =
        w.services ++ (newIndices w.startScale).map (shardService w.startScale) ∧
      (spinUp w.startScale a w').ingresses =
        w.ingresses ++ (newIndices w.startScale).map (shardIngress w.startScale) := by
  simp only [Cluster.objects, Prod.mk.injEq] at hobj
  obtain ⟨hobj₁, hobj₂, hobj₃⟩ := hobj
  have h₁ := createAll_newIndices w.startScale ObjectMeta.name (shardIngress w.startScale)
    (ingressName_injective _) h.ingresses
  have h₂ := createAll_newIndices w.startScale ObjectMeta.name (shardService w.startScale)
    (shardName_injective _) h.services
  have h₃ := createAll_newIndices w.startScale (fun x : StatefulSet => x.name) (shard w.startScale)
    (setName_injective _) h.shards
  unfold spinUp spinUpShardIngresses spinUpShardServices spinUpShards
  simp only [hobj₁, hobj₂, hobj₃, h₁, h₂, h₃]
  exact ⟨rfl, rfl, rfl⟩

/-- A pass that writes everything creates all new shards and the ConfigMap of the scale
operation. -/
theorem scaleUp_of_writes (h : Writes w a) :
    (scaleUp a w).statefulSets =
        w.statefulSets ++ (newIndices w.startScale).map (shard w.startScale) ∧
      (scaleUp a w).services =
        w.services ++ (newIndices w.startScale).map (shardService w.startScale) ∧
      (scaleUp a w).ingresses =
        w.ingresses ++ (newIndices w.startScale).map (shardIngress w.startScale) ∧
      (scaleUp a w).configMap = some (kvConfig w.kvStore.name w.kvStore.spec.replicas
        w.statefulSets.length w.kvStore.spec.shards) := by
  have hok := updateConfigMap_of_writes (k := w.startScale) h
    (configMap_updateStatus (k := w.startScale) a.startStatus)
  unfold scaleUp
  simp only [hok, Bool.not_true, Bool.false_eq_true, if_false]
  obtain ⟨h₁, h₂, h₃⟩ := spinUp_of_writes h objects_startScale
  refine ⟨h₁, h₂, h₃, ?_⟩
  rw [configMap_spinUp]
  rcases updateConfigMap_eq (k := w.startScale) (a := a)
    (w := updateStatus a.startStatus w.startScale w) with heq | heq
  · rw [heq] at hok; cases hok
  · rw [heq]; rfl

theorem Inv.scaleUp (h : Inv w) (hp : w.phase = .normal)
    (hlt : w.statefulSets.length < w.kvStore.spec.shards)
    (hw : a.startStatus = true → Writes w a) : Inv (scaleUp a w) := by
  have hs := Stocked.grown (k := w.startScale) h.labels
    (h.stocked_at hp) (grown_scaleUp (a := a))
  have hkv := kvStore_scaleUp (a := a) (w := w)
  cases hstart : a.startStatus with
  | false =>
    -- nothing persisted: the next pass counts the StatefulSets again
    rw [hstart] at hkv
    have hkv' : (Kvctl.scaleUp a w).kvStore = w.kvStore := hkv
    have hp' : (Kvctl.scaleUp a w).phase = .normal := by
      unfold Cluster.phase; rw [hkv']; exact hp
    refine ⟨hkv' ▸ h.labels, ?_, fun hc => by rw [hp'] at hc; cases hc⟩
    unfold lower upper
    unfold Cluster.phase at hp'
    rw [hp', hkv']
    exact hs
  | true =>
    obtain ⟨hsets, -, -, hconfig⟩ := scaleUp_of_writes (hw hstart)
    have hlength := congrArg List.length hsets
    simp only [List.length_append, List.length_map, newIndices, List.length_range',
      Cluster.startScale] at hlength
    rw [hstart] at hkv
    have hkv' : (Kvctl.scaleUp a w).kvStore = w.startScale := hkv
    refine ⟨hkv' ▸ h.labels, ?_, fun _ => ?_⟩
    · rw [hkv']
      have hmax : max w.statefulSets.length w.kvStore.spec.shards =
          (Kvctl.scaleUp a w).statefulSets.length := by omega
      unfold lower upper Cluster.startScale
      simp only [hmax]
      exact hs
    · rw [hkv']
      exact ⟨hlt.ne, _, hconfig⟩

/-- The cluster of a scale-down after the ConfigMap has been written. -/
def shrinking (ok : Bool) (w : Cluster) : Cluster :=
  updateStatus ok w.startScale
    { w with configMap := some (kvConfig w.kvStore.name w.kvStore.spec.replicas
        w.statefulSets.length w.kvStore.spec.shards) }

/-- A scale-down goes on to `PrepareScale`, unless its ConfigMap cannot be written. -/
theorem scaleDown_eq :
    (updateConfigMap w.startScale a (updateStatus a.startStatus w.startScale w)).2 = false ∧
        (scaleDown a w).1 = updateStatus a.startStatus w.startScale w ∨
      scaleDown a w = prepareScale w.startScale a (shrinking a.startStatus w) := by
  unfold scaleDown shrinking
  simp only
  rcases updateConfigMap_eq (k := w.startScale) (a := a)
    (w := updateStatus a.startStatus w.startScale w) with heq | heq <;> rw [heq]
  · exact .inl ⟨rfl, rfl⟩
  · right
    cases a.startStatus <;> rfl

theorem scaleDown_of_writes (h : Writes w a) :
    scaleDown a w = prepareScale w.startScale a (shrinking a.startStatus w) := by
  have hok := updateConfigMap_of_writes (k := w.startScale) h
    (configMap_updateStatus (k := w.startScale) a.startStatus)
  rcases scaleDown_eq (a := a) (w := w) with ⟨hfailed, -⟩ | heq
  · rw [hok] at hfailed
    cases hfailed
  · exact heq

/-- A scale-down whose ConfigMap cannot be written does not start, or goes on to `PrepareScale`. -/
theorem scaleDown_cases (hw : a.startStatus = true → Writes w a) :
    (scaleDown a w).1 = w ∨
      scaleDown a w = prepareScale w.startScale a (shrinking a.startStatus w) := by
  cases hstart : a.startStatus with
  | true => exact .inr (hstart ▸ scaleDown_of_writes (hw hstart))
  | false =>
    rcases scaleDown_eq (a := a) (w := w) with ⟨-, heq⟩ | heq <;> rw [hstart] at heq
    · exact .inl heq
    · exact .inr heq

section Shrinking

variable (hp : w.phase = .normal) (hlt : w.kvStore.spec.shards < w.statefulSets.length)

include hp hlt

theorem Inv.stocked_shrinking (h : Inv w) (ok : Bool) :
    Stocked w.kvStore.name (max w.statefulSets.length w.kvStore.spec.shards)
      (max w.statefulSets.length w.kvStore.spec.shards) (shrinking ok w) := by
  rw [max_eq_left hlt.le]
  exact (h.stocked_at hp).of_objects_eq (objects_updateStatus _)

theorem Inv.shrinking (h : Inv w) (ok : Bool) : Inv (shrinking ok w) := by
  have hne : w.phase ≠ .preparingScale := by rw [hp]; decide
  refine (h.setConfig hne _).updateStatus ok rfl ?_ fun _ => ⟨hlt.ne', _, rfl⟩
  exact (h.stocked_shrinking hp hlt false).of_objects_eq rfl

omit hp in
theorem configOf_shrinking (ok : Bool) :
    ConfigOf w.startScale (shrinking ok w) :=
  ⟨hlt.ne', _, configMap_updateStatus ok⟩

theorem Inv.scaleDown (h : Inv w) (hw : a.startStatus = true → Writes w a) :
    Inv (scaleDown a w).1 := by
  rcases scaleDown_cases hw with heq | heq
  · rw [heq]; exact h
  · rw [heq]
    have hname : (Kvctl.shrinking a.startStatus w).kvStore.name = w.kvStore.name := by
      cases a.startStatus <;> rfl
    exact (h.shrinking hp hlt a.startStatus).prepareScale hname.symm
      (hname ▸ h.stocked_shrinking hp hlt a.startStatus) rfl (configOf_shrinking hlt a.startStatus)

/-- A scale-down that leaves `PreparingScale` in its first pass is prepared. -/
theorem prepared_scaleDown (h : Inv w) (hw : a.startStatus = true → Writes w a)
    (h₁ : (scaleDown a w).1.phase ≠ .normal) :
    Prepared w.kvStore.name (scaleDown a w).1.kvStore.status.currentShards
      (scaleDown a w).1.kvStore.status.targetShards (scaleDown a w).1 := by
  rcases scaleDown_cases hw with heq | heq
  · rw [heq] at h₁; exact absurd hp h₁
  · rw [heq] at h₁ ⊢
    have hprepared := prepared_prepareScale (a := a) (k := w.startScale)
      (h.stocked_shrinking hp hlt a.startStatus) (configOf_shrinking hlt a.startStatus)
    have hpos : w.startScale.status.currentShards ≠ 0 :=
      (Nat.zero_le _).trans_lt hlt |>.ne'
    rcases prepareScale_shards (a := a) (w := Kvctl.shrinking a.startStatus w) hpos with hk | hk
    · -- the status is the one that the pass has persisted at its start
      unfold Cluster.phase at h₁
      rw [hk] at h₁ ⊢
      cases hstart : a.startStatus with
      | false => rw [hstart] at h₁; exact absurd hp h₁
      | true => rw [hstart] at hprepared; exact hprepared
    · rw [hk.1, hk.2]; exact hprepared

end Shrinking

/-! ### One pass -/

theorem Inv.reconcilePhase (h : Inv w) (hlists : Lists a)
    (hw : w.phase = .normal → w.statefulSets.length ≠ w.kvStore.spec.shards →
      a.startStatus = true → Writes w a) : Inv (reconcilePhase a w).1 := by
  unfold Kvctl.reconcilePhase
  cases hp : w.kvStore.status.phase with
  | normal =>
    simp only
    split_ifs with hup hdown
    · exact h.scaleUp hp hup (hw hp hup.ne)
    · exact h.scaleDown hp hdown (hw hp hdown.ne')
    · exact h
  | preparingScale => exact h.prepareScale rfl (h.stocked_at hp) hp (h.config hp)
  | stoppingWrites => exact h.stopWrites hp
  | redistributingKeys => exact h.redistributeKeys hp
  | finalizingScale => exact h.finalizeScale hp hlists
  | resumingWrites => exact h.resumeWrites hp
  | scaleComplete => exact h

theorem Pass.Prepared.of_phase_eq {p : Pass} (h : p.after.phase = p.before.phase) : p.Prepared := by
  unfold Pass.Prepared
  split
  · exact fun hne => absurd (h.trans ‹_›) hne
  · exact fun hne => absurd (h.trans ‹_›) hne
  · trivial

theorem Inv.prepared_reconcilePhase (h : Inv w)
    (hw : w.phase = .normal → w.statefulSets.length ≠ w.kvStore.spec.shards →
      a.startStatus = true → Writes w a) :
    Pass.Prepared ⟨w, (Kvctl.reconcilePhase a w).2, (Kvctl.reconcilePhase a w).1⟩ := by
  unfold Kvctl.reconcilePhase
  cases hphase : w.kvStore.status.phase with
  | normal =>
    have hp : w.phase = .normal := hphase
    unfold Pass.Prepared
    simp only [hp]
    split_ifs with hup hdown
    · intro h₁ h₂
      rcases phase_scaleUp (a := a) (w := w) with heq | heq
      · exact absurd heq h₂
      · exact absurd (heq.trans hp) h₁
    · exact fun h₁ _ => prepared_scaleDown hp hdown h (hw hp hdown.ne') h₁
    · exact fun h₁ => absurd hp h₁
  | preparingScale =>
    have hp : w.phase = .preparingScale := hphase
    unfold Pass.Prepared
    simp only [hp]
    exact fun _ => prepared_prepareScale (h.stocked_at hp) (h.config hp)
  | stoppingWrites | redistributingKeys | finalizingScale | resumingWrites | scaleComplete =>
    have hp : w.phase = _ := hphase
    unfold Pass.Prepared
    simp only [hp]

/-- Steps that leave the names and labels of the objects alone. -/
theorem Inv.of_sets_eq {w' : Cluster} (h : Inv w) (hk : w'.kvStore = w.kvStore)
    (hsets : w'.sets = w.sets) (hservices : w'.services = w.services)
    (hingresses : w'.ingresses = w.ingresses) (hconfig : w'.configMap = w.configMap) : Inv w' := by
  have hlength : w'.statefulSets.length = w.statefulSets.length := by
    have := congrArg List.length hsets
    unfold Cluster.sets at this
    rwa [List.length_map, List.length_map] at this
  obtain ⟨h₁, h₂, h₃, h₄, h₅⟩ := h.stocked
  refine ⟨hk ▸ h.labels, ?_, fun hp => ?_⟩
  · rw [hk, hlength]
    exact ⟨hsets ▸ h₁, hservices ▸ h₂, hingresses ▸ h₃, hsets ▸ h₄, hsets ▸ h₅⟩
  · unfold Cluster.phase at hp
    rw [hk] at hp ⊢
    have hc := h.config hp
    unfold ConfigOf at hc ⊢
    rwa [hconfig]

theorem Inv.map (h : Inv w) {f : StatefulSet → StatefulSet}
    (hf : ∀ x, (f x).toObjectMeta = x.toObjectMeta) :
    Inv { w with statefulSets := w.statefulSets.map f } :=
  h.of_sets_eq rfl (sets_map hf) rfl rfl rfl

/-- A careful pass keeps the invariant, and is prepared. -/
theorem Inv.reconcile (h : Inv w) (hlists : Lists a)
    (hw : w.phase = .normal → a.getKVStore = true → outdated w = [] →
      w.statefulSets.length ≠ w.kvStore.spec.shards → a.startStatus = true → Writes w a) :
    Inv (Kvctl.reconcile a w).1 ∧
      Pass.Prepared ⟨w, (Kvctl.reconcile a w).2, (Kvctl.reconcile a w).1⟩ := by
  rcases reconcile_cases a w with ⟨f, hf, heq⟩ | ⟨hget, hout, heq⟩ <;> rw [heq]
  · exact ⟨h.map hf, .of_phase_eq rfl⟩
  · have hw' := fun hp => hw hp hget hout
    exact ⟨h.reconcilePhase hlists hw', h.prepared_reconcilePhase hw'⟩

/-! ### Runs -/

theorem Inv.edit (h : Inv w) {spec : KVStoreSpec} {labels : Labels}
    (hlabels : labels.lookup "group" = none) :
    Inv { w with kvStore := { w.kvStore with spec := spec, labels := labels } } :=
  ⟨hlabels, h.stocked.of_objects_eq rfl, h.config⟩

theorem Inv.reorder (h : Inv w) {statefulSets : List StatefulSet}
    {services ingresses : List ObjectMeta} (h₁ : statefulSets.Perm w.statefulSets)
    (h₂ : services.Perm w.services) (h₃ : ingresses.Perm w.ingresses) :
    Inv { w with statefulSets := statefulSets, services := services, ingresses := ingresses } := by
  have hsets : (statefulSets.map StatefulSet.toObjectMeta).Perm w.sets := h₁.map _
  refine ⟨h.labels, ?_, h.config⟩
  simp only [h₁.length_eq]
  exact ⟨h.stocked.sets.perm hsets, h.stocked.services.perm h₂, h.stocked.ingresses.perm h₃,
    (hsets.map _).nodup_iff.2 h.stocked.nodup, fun x hx => h.stocked.bound x (hsets.subset hx)⟩

theorem inv_created (name : String) {labels : Labels} (spec : KVStoreSpec)
    (hlabels : labels.lookup "group" = none) : Inv (created name labels spec).cluster := by
  refine ⟨hlabels, ⟨⟨nofun, fun i hi => absurd hi (Nat.not_lt_zero i)⟩,
    ⟨nofun, fun i hi => absurd hi (Nat.not_lt_zero i)⟩,
    ⟨nofun, fun i hi => absurd hi (Nat.not_lt_zero i)⟩, List.nodup_nil, nofun⟩, nofun⟩

/-- **Data moves only after the scale operation has been prepared.**  For every run from the
creation of a `KVStore` object, with any failing calls: if the Lists succeed, the user never sets
the label `group`, and each pass that persists `PreparingScale` also writes the ConfigMap and the
new objects, then each pass that leaves `PreparingScale` leaves it prepared. -/
theorem prepared_of_careful (name : String) (labels : Labels) (spec : KVStoreSpec)
    (hlabels : labels.lookup "group" = none) (s : State)
    (h : machine.ReachedBy Careful (created name labels spec) s) :
    ∀ p ∈ s.history, p.Prepared := by
  refine (h.invariant (I := fun s => Inv s.cluster ∧ ∀ p ∈ s.history, p.Prepared)
    ⟨inv_created name spec hlabels, fun p hp => absurd hp List.not_mem_nil⟩
    fun s l s' hi hcareful hst => ?_).2
  obtain ⟨hinv, hpast⟩ := hi
  cases l with
  | reconcile a =>
    cases hst
    obtain ⟨hinv', hpass⟩ := hinv.reconcile hcareful.1 hcareful.2
    refine ⟨hinv', fun p hp => ?_⟩
    rcases List.mem_append.1 hp with hmem | hmem
    · exact hpast p hmem
    · rw [List.mem_singleton.1 hmem]; exact hpass
  | change c =>
    obtain ⟨w, hw, rfl⟩ := Option.map_eq_some_iff.1 hst
    refine ⟨?_, hpast⟩
    rcases Cluster.change_cases hw with ⟨spec, labels, rfl, -, rfl⟩ | ⟨x, n, -, rfl⟩ |
      ⟨xs, ys, zs, -, h₁, h₂, h₃, rfl⟩
    · exact hinv.edit hcareful
    · exact hinv.map fun y => by split_ifs <;> rfl
    · exact hinv.reorder h₁ h₂ h₃

/-- A store with one shard is created and grows to two shards. -/
theorem prepared_of_careful_grow :
    ∃ s, machine.ReachedBy Careful (created "kv" ∅ ⟨1, 1⟩) s ∧ s.cluster.phase = .stoppingWrites ∧
      s.history.length = 4 ∧ ∀ p ∈ s.history, p.Prepared := by
  have hwait : ∀ s, s.cluster.phase ≠ .normal → Careful s (.reconcile .ok) :=
    fun s hs => ⟨⟨rfl, rfl, rfl, rfl⟩, fun hp => absurd hp hs⟩
  obtain ⟨s, hs, hp, hl⟩ : ∃ s, machine.ReachedBy Careful (created "kv" ∅ ⟨1, 1⟩) s ∧
      s.cluster.phase = .stoppingWrites ∧ s.history.length = 4 := by
    refine ⟨_, .head (l := .reconcile .ok) ⟨⟨rfl, rfl, rfl, rfl⟩, fun _ _ _ _ _ => ?_⟩ rfl <|
      .head (l := .change (.ready "kv-shard-0-replica" 1)) trivial rfl <|
      .head (l := .reconcile .ok) (hwait _ nofun) rfl <|
      .head (l := .change (.edit ⟨2, 1⟩ ∅)) (Finmap.lookup_empty _) rfl <|
      .head (l := .reconcile .ok) ⟨⟨rfl, rfl, rfl, rfl⟩, fun _ _ _ _ _ => ?_⟩ rfl <|
      .head (l := .change (.ready "kv-shard-1-replica" 1)) trivial rfl <|
      .head (l := .reconcile .ok) (hwait _ nofun) rfl .start, rfl, rfl⟩
    · exact ⟨rfl, fun _ => rfl, fun _ => rfl, fun _ _ _ => ⟨rfl, nofun⟩,
        fun _ _ _ => ⟨rfl, nofun⟩, fun _ _ _ => ⟨rfl, nofun⟩⟩
    · refine ⟨rfl, fun _ => rfl, fun _ => rfl, fun i h₁ h₂ => ⟨rfl, ?_⟩, fun i h₁ h₂ => ⟨rfl, ?_⟩,
        fun i h₁ h₂ => ⟨rfl, ?_⟩⟩ <;>
        (obtain rfl : i = 1 := Nat.le_antisymm (Nat.le_of_lt_succ h₂) h₁; decide)
  exact ⟨s, hs, hp, hl, prepared_of_careful "kv" ∅ ⟨1, 1⟩ (Finmap.lookup_empty _) s hs⟩

/-- **A StatefulSet that cannot be created is never created.**  `PreparingScale` has been persisted,
so the next pass enters `PrepareScale`, finds nothing to wait for, and the store is `Normal` without
its shard. -/
theorem not_prepared :
    ¬ ∀ s, machine.ReachedBy (fun _ l => ∀ a, l = .reconcile a → Lists a)
      (created "kv" ∅ ⟨1, 1⟩) s → ∀ p ∈ s.history, p.Prepared := by
  intro h
  obtain ⟨s, hs, p, hp, hbefore, hafter, htarget, hsets⟩ :
      ∃ s, machine.ReachedBy (fun _ l => ∀ a, l = .reconcile a → Lists a)
        (created "kv" ∅ ⟨1, 1⟩) s ∧ ∃ p ∈ s.history,
        p.before.phase = .preparingScale ∧ p.after.phase = .normal ∧
        p.before.kvStore.status.targetShards = 1 ∧ p.after.statefulSets = [] :=
    ⟨_, .head (l := .reconcile { Answers.ok with createShard := fun _ => false })
      (by rintro a ⟨⟩; exact ⟨rfl, rfl, rfl, rfl⟩) rfl <|
      .head (l := .reconcile .ok) (by rintro a ⟨⟩; exact ⟨rfl, rfl, rfl, rfl⟩) rfl .start,
      _, List.mem_cons_of_mem _ List.mem_cons_self, rfl, rfl, rfl, rfl⟩
  have hc := h s hs p hp
  unfold Pass.Prepared at hc
  simp only [hbefore, hafter] at hc
  obtain ⟨x, hx, -⟩ := (hc nofun).statefulSets 0 (htarget ▸ Nat.one_pos)
  rw [hsets] at hx
  cases hx

end Kvctl

end ShardedKvs
