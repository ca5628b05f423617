import ShardedKvs.Kvctl.Prepare
import ShardedKvs.Kvctl.Race

/-!
# What a quiet controller means

A `Reconcile` that finds the phase `Normal` and as many StatefulSets as the spec wants does nothing
and does not come back.  The work of a scale operation is started from the copy of the object in
memory, and the error of its first status update is not looked at.  When that update is lost, the
shards of a scale-up are created all the same; the next pass then finds nothing to do, although the
ConfigMap still announces the scale operation and no key has moved.

* `Quiet`, `Finished` : the pass finds nothing to do; the scale operations are really over.
* `Persists` : every pass that starts a scale operation gets its status persisted.
* `Full`, `Tidy` : the invariant of such runs.
* `finished_of_persists` : **in such a run a quiet controller has finished**.
* `not_finished` : a scale-up whose first status update is lost ends quiet and unfinished.
-/

namespace ShardedKvs

namespace Kvctl

/-- The pass finds the store in `Normal` with nothing to do, and is not repeated. -/
structure Quiet (w : Cluster) : Prop where
  outdated : outdated w = []
  phase : w.phase = .normal
  shards : w.statefulSets.length = w.kvStore.spec.shards

/-- The store has the shards that its spec wants, and the ConfigMap lists them and no new ones. -/
structure Finished (w : Cluster) : Prop where
  current : w.kvStore.status.currentShards = w.kvStore.spec.shards
  statefulSets : w.statefulSets.length = w.kvStore.spec.shards
  configMap : ∃ c, w.configMap = some c ∧
    c.members = (List.range w.kvStore.spec.shards).map (shardName w.kvStore.name) ∧
    c.newShards = []

/-- All calls succeed, except perhaps the status updates. -/
structure Succeeds (a : Answers) : Prop extends Lists a where
  getKVStore : a.getKVStore = true
  updateShard : a.updateShard = true
  getConfigMap : a.getConfigMap = true
  createConfigMap : a.createConfigMap = true
  updateConfigMap : a.updateConfigMap = true
  createIngress : ∀ i, a.createIngress i = true
  createService : ∀ i, a.createService i = true
  createShard : ∀ i, a.createShard i = true
  deleteShard : ∀ x, a.deleteShard x = true
  deleteIngress : ∀ x, a.deleteIngress x = true
  deleteService : ∀ x, a.deleteService x = true
  pauseWrites : ∀ x, ∃ b, a.pauseWrites x = .ok b
  redistributeKeys : ∀ x, ∃ n, a.redistributeKeys x = .ok n
  resumeWrites : ∀ x, ∃ b, a.resumeWrites x = .ok b

/-- The pass starts a scale operation. -/
structure Starts (w : Cluster) : Prop where
  outdated : outdated w = []
  phase : w.phase = .normal
  shards : w.statefulSets.length ≠ w.kvStore.spec.shards

/-- All calls but status updates succeed, the user never sets the label `group`, and every pass that
starts a scale operation persists it: the first status update succeeds, or, in a scale-down, the one
at the end of `PrepareScale`. -/
def Persists (s : Racing) : Racing.Label → Prop
  | .finish a => Succeeds a ∧ ∀ rd, s.reading = some rd → Starts (rd.view s.cluster) →
      rd.stale = false ∧ (a.startStatus = true ∨
        rd.kvStore.spec.shards < s.cluster.statefulSets.length ∧ a.updateStatus = true)
  | .change (.edit _ labels) => labels.lookup "group" = none
  | _ => True

/-! ### The objects of all kinds -/

/-- The objects of all three kinds: those of the shards below `lo` exist, and none has an index
`hi` or more. -/
structure Full (name : String) (lo hi : ℕ) (w : Cluster) : Prop where
  sets : Ranked name (setName name) lo hi w.sets
  services : Ranked name (shardName name) lo hi w.services
  ingresses : Ranked name (ingressName name) lo hi w.ingresses

namespace Full

variable {name : String} {lo hi lo' hi' n m : ℕ} {k : KVStore} {a : Answers} {w w' : Cluster}

theorem widen (h : Full name lo hi w) (hlo : lo' ≤ lo) (hhi : hi ≤ hi') : Full name lo' hi' w :=
  ⟨h.sets.widen hlo hhi, h.services.widen hlo hhi, h.ingresses.widen hlo hhi⟩

theorem of_objects_eq (h : Full name lo hi w) (hobj : w'.objects = w.objects) :
    Full name lo hi w' := by
  simp only [Cluster.objects, Prod.mk.injEq] at hobj
  obtain ⟨h₁, h₂, h₃⟩ := hobj
  have hsets : w'.sets = w.sets := congrArg (List.map StatefulSet.toObjectMeta) h₁
  exact ⟨hsets ▸ h.sets, h₂ ▸ h.services, h₃ ▸ h.ingresses⟩

theorem length_eq (h : Full name n n w) : w.statefulSets.length = n :=
  (List.length_map _).symm.trans (h.sets.length_eq (setName_injective name))

/-- New objects of all kinds for the shards from `n` on. -/
theorem grown (hlabels : k.labels.lookup "group" = none) (h : Full k.name n n w)
    (hsets : w'.statefulSets = w.statefulSets ++ (List.range' n m).map (shard k))
    (hservices : w'.services = w.services ++ (List.range' n m).map (shardService k))
    (hingresses : w'.ingresses = w.ingresses ++ (List.range' n m).map (shardIngress k)) :
    Full k.name (n + m) (n + m) w' := by
  refine ⟨h.sets.grown hlabels hsets, ?_, ?_⟩
  · rw [hservices]
    exact h.services.append (shardName_injective _) (fun _ => rfl) (group_shardLabels hlabels _) m
  · rw [hingresses]
    exact h.ingresses.append (ingressName_injective _) (fun _ => rfl)
      (group_shardLabels hlabels _) m

/-- The objects after the deletions of a scale-down, all of which succeed. -/
theorem deleteGroups (h : Full w.kvStore.name lo w.kvStore.status.currentShards w)
    (hlo : w.kvStore.status.targetShards ≤ lo) (hlists : Lists a)
    (hok : (deleteGroups w.kvStore a w).2 = true) :
    Full w.kvStore.name w.kvStore.status.targetShards w.kvStore.status.targetShards
      (deleteGroups w.kvStore a w).1 := by
  have hswept := swept_deleteGroups (k := w.kvStore) (a := a) (w := w)
  obtain ⟨h₁, h₂, h₃⟩ := deleteGroups_of_true hlists.getShards hlists.getServices
    hlists.getIngresses hok
  refine ⟨?_, ?_, ?_⟩
  · refine (h.sets.swept (setName_injective _) hswept.statefulSets.map_toObjectMeta hlo).trimmed
      (setName_injective _) fun x hx => ?_
    obtain ⟨y, hy, rfl⟩ := List.mem_map.1 hx
    exact h₁ y hy
  · exact (h.services.swept (shardName_injective _) hswept.services hlo).trimmed
      (shardName_injective _) h₂
  · exact (h.ingresses.swept (ingressName_injective _) hswept.ingresses hlo).trimmed
      (ingressName_injective _) h₃

/-- No name from `n` on is taken, so a pass whose calls succeed writes everything. -/
theorem writes (h : Full w.kvStore.name w.statefulSets.length w.statefulSets.length w)
    (ha : Succeeds a) : Writes w a := by
  refine ⟨ha.getConfigMap, fun _ => ha.createConfigMap, fun _ => ha.updateConfigMap,
    fun i hi _ => ⟨ha.createShard i, fun x hx hname => ?_⟩,
    fun i hi _ => ⟨ha.createService i, fun x hx hname => ?_⟩,
    fun i hi _ => ⟨ha.createIngress i, fun x hx hname => ?_⟩⟩
  · exact absurd (h.sets.bound x.toObjectMeta (List.mem_map_of_mem hx) i hname) (not_lt.2 hi)
  · exact absurd (h.services.bound x hx i hname) (not_lt.2 hi)
  · exact absurd (h.ingresses.bound x hx i hname) (not_lt.2 hi)

end Full

/-! ### The invariant -/

/-- The ConfigMap that fits a status; `replicas` is the number of replicas that it lists. -/
def ConfigFits (replicas : ℕ) (name : String) (st : KVStoreStatus) (c : Option KVStoreConfig) :
    Prop :=
  match st.phase with
  | .normal => if st.currentShards = 0 then c = none
      else c = some (kvConfig name replicas st.currentShards st.currentShards)
  | .finalizingScale => c = some (kvConfig name replicas st.currentShards st.targetShards) ∨
      c = some (kvConfig name replicas st.targetShards st.targetShards)
  | .resumingWrites => c = some (kvConfig name replicas st.targetShards st.targetShards)
  | _ => c = some (kvConfig name replicas st.currentShards st.targetShards)

theorem configFits_normal {replicas : ℕ} {name : String} {st : KVStoreStatus}
    {c : Option KVStoreConfig} (hp : st.phase = .normal) (hpos : 1 ≤ st.currentShards) :
    ConfigFits replicas name st c ↔
      c = some (kvConfig name replicas st.currentShards st.currentShards) := by
  simp only [ConfigFits, hp]
  rw [if_neg (Nat.one_le_iff_ne_zero.1 hpos)]

/-- The invariant of runs in which every scale operation is persisted. -/
structure Tidy (replicas : ℕ) (w : Cluster) : Prop where
  labels : w.kvStore.labels.lookup "group" = none
  pos : 1 ≤ w.kvStore.spec.shards
  sound : w.kvStore.Sound
  full : Full w.kvStore.name (lower w.kvStore.status w.kvStore.status.currentShards)
    (upper w.kvStore.status w.kvStore.status.currentShards) w
  config : ConfigFits replicas w.kvStore.name w.kvStore.status w.configMap

section Passes

variable {k : KVStore} {a : Answers} {w : Cluster} {r : ℕ}

/-- A status update, for a status that fits the objects and the ConfigMap. -/
theorem tidy_updateStatus {ok : Bool} (hlabels : w.kvStore.labels.lookup "group" = none)
    (hpos : 1 ≤ w.kvStore.spec.shards) (hk : k.Sound) (hspec : k.spec = w.kvStore.spec)
    (hfull : Full w.kvStore.name (lower k.status k.status.currentShards)
      (upper k.status k.status.currentShards) w)
    (hconfig : ConfigFits r w.kvStore.name k.status w.configMap)
    (hw : ok = false → Tidy r w) : Tidy r (updateStatus ok k w) := by
  cases ok with
  | false => exact hw rfl
  | true => exact ⟨hlabels, hpos, hk.withStatus hspec, hfull.of_objects_eq rfl, hconfig⟩

theorem Tidy.updateStatus (h : Tidy r w) (ok : Bool) (hk : k.Sound)
    (hspec : k.spec = w.kvStore.spec)
    (hfull : Full w.kvStore.name (lower k.status k.status.currentShards)
      (upper k.status k.status.currentShards) w)
    (hconfig : ConfigFits r w.kvStore.name k.status w.configMap) :
    Tidy r (updateStatus ok k w) :=
  tidy_updateStatus h.labels h.pos hk hspec hfull hconfig fun _ => h

theorem Tidy.setMessage (h : Tidy r w) (ok : Bool) (message : String) :
    Tidy r (Kvctl.updateStatus ok (w.kvStore.setMessage message) w) :=
  h.updateStatus ok (h.sound.setMessage _) rfl h.full h.config

/-- The facts of the invariant in a known phase, where the bounds and the ConfigMap compute. -/
theorem Tidy.at_phase (h : Tidy r w) {p : Phase} (hp : w.phase = p) :
    Full w.kvStore.name
        (lower { w.kvStore.status with phase := p } w.kvStore.status.currentShards)
        (upper { w.kvStore.status with phase := p } w.kvStore.status.currentShards) w ∧
      ConfigFits r w.kvStore.name { w.kvStore.status with phase := p } w.configMap := by
  subst hp
  exact ⟨h.full, h.config⟩

/-- The first configuration of a store is also the one it is left with. -/
theorem kvConfig_zero_eq_self (name : String) (replicas : ℕ) {n : ℕ} (hpos : 1 ≤ n) :
    kvConfig name replicas 0 n = kvConfig name replicas n n := by
  rw [kvConfig_zero, kvConfig_self name replicas (Nat.one_le_iff_ne_zero.1 hpos)]

/-- `PrepareScale`, with a copy whose status fits the objects and the ConfigMap. -/
theorem tidy_prepareScale (hlabels : w.kvStore.labels.lookup "group" = none)
    (hpos : 1 ≤ w.kvStore.spec.shards) (hk : k.Sound) (hspec : k.spec = w.kvStore.spec)
    (hp : k.status.phase = .preparingScale)
    (hfull : Full w.kvStore.name (max k.status.currentShards k.status.targetShards)
      (max k.status.currentShards k.status.targetShards) w)
    (hconfig : w.configMap =
      some (kvConfig w.kvStore.name r k.status.currentShards k.status.targetShards))
    (hw : a.updateStatus = false → Tidy r w) : Tidy r (prepareScale k a w).1 := by
  have hne : k.status.phase ≠ .normal := by rw [hp]; decide
  have htarget : 1 ≤ k.status.targetShards := by
    rw [hk.target hne, hspec]; exact hpos
  rcases prepareScale_cases k a w with ⟨message, heq⟩ | ⟨hzero, heq⟩ | ⟨hzero, heq⟩ <;> rw [heq]
  · refine tidy_updateStatus hlabels hpos (hk.setMessage _) hspec ?_ ?_ hw
    · simp only [lower, upper, KVStore.setMessage, hp]
      exact hfull
    · simp only [ConfigFits, KVStore.setMessage, hp]
      exact hconfig
  · -- the first shards of a store
    rw [hzero, Nat.zero_max] at hfull
    rw [hzero, kvConfig_zero_eq_self _ _ htarget] at hconfig
    exact tidy_updateStatus hlabels hpos (hk.setCurrent hne (.inl rfl) _) hspec hfull
      ((configFits_normal rfl htarget).2 hconfig) hw
  · exact tidy_updateStatus hlabels hpos
      (hk.setPhase hne (.inl rfl) (Nat.one_le_iff_ne_zero.2 hzero) (hk.preparing hp) _) hspec
      hfull hconfig hw

theorem Tidy.prepareScale (h : Tidy r w) (hp : w.phase = .preparingScale) :
    Tidy r (prepareScale w.kvStore a w).1 := by
  obtain ⟨hfull, hconfig⟩ := h.at_phase hp
  exact tidy_prepareScale h.labels h.pos h.sound rfl hp hfull hconfig fun _ => h

theorem Tidy.stopWrites (h : Tidy r w) (hp : w.phase = .stoppingWrites) :
    Tidy r (stopWrites w.kvStore a w).1 := by
  obtain ⟨hfull, hconfig⟩ := h.at_phase hp
  obtain ⟨hpos, hmove⟩ := h.sound.moving (.inl hp)
  have hne : w.kvStore.status.phase ≠ .normal := fun hn => nomatch hn.symm.trans hp
  rcases stopWrites_cases w.kvStore a w with ⟨message, heq⟩ | ⟨-, heq⟩ <;> rw [heq]
  · exact h.setMessage _ _
  · exact h.updateStatus _ (h.sound.setPhase hne (.inr (.inl rfl)) hpos hmove _) rfl hfull hconfig

theorem Tidy.redistributeKeys (h : Tidy r w) (hp : w.phase = .redistributingKeys) :
    Tidy r (redistributeKeys w.kvStore a w).1 := by
  obtain ⟨hfull, hconfig⟩ := h.at_phase hp
  obtain ⟨hpos, hmove⟩ := h.sound.moving (.inr (.inl hp))
  have hne : w.kvStore.status.phase ≠ .normal := fun hn => nomatch hn.symm.trans hp
  rcases redistributeKeys_cases w.kvStore a w with ⟨message, heq⟩ | heq <;> rw [heq]
  · exact h.setMessage _ _
  · exact h.updateStatus _ (h.sound.setPhase hne (.inr (.inr rfl)) hpos hmove _) rfl
      (hfull.widen (le_max_right _ _) le_rfl) (.inl hconfig)

theorem Tidy.resumeWrites (h : Tidy r w) (hp : w.phase = .resumingWrites) :
    Tidy r (resumeWrites w.kvStore a w).1 := by
  obtain ⟨hfull, hconfig⟩ := h.at_phase hp
  have hne : w.kvStore.status.phase ≠ .normal := fun hn => nomatch hn.symm.trans hp
  have htarget : 1 ≤ w.kvStore.status.targetShards := h.sound.target hne ▸ h.pos
  rcases resumeWrites_cases w.kvStore a w with ⟨message, heq⟩ | ⟨-, heq⟩ <;> rw [heq]
  · exact h.setMessage _ _
  · exact h.updateStatus _ (h.sound.setCurrent hne (.inl rfl) _) rfl hfull
      ((configFits_normal rfl htarget).2 hconfig)

/-- The end of `FinalizeScale`: the final ConfigMap is written, with the replicas of the spec. -/
theorem tidy_resumeAfterScale (ha : Succeeds a) (hk : w.kvStore = k)
    (hp : w.phase = .finalizingScale)
    (hlabels : w.kvStore.labels.lookup "group" = none) (hpos : 1 ≤ w.kvStore.spec.shards)
    (hsound : w.kvStore.Sound)
    (hfull : Full k.name k.status.targetShards k.status.targetShards w) :
    Tidy k.spec.replicas (resumeAfterScale k a w) := by
  subst hk
  have hne : w.kvStore.status.phase ≠ .normal := fun hn => nomatch hn.symm.trans hp
  have hp' : w.kvStore.status.phase = .finalizingScale := hp
  unfold Kvctl.resumeAfterScale
  simp only
  rcases updateConfigMap_eq (a := a) (w := w)
    (k := (w.kvStore.setPhase .resumingWrites "Starting to resume writes").setCurrent)
    with heq | heq
  · -- the ConfigMap calls succeed
    have hok : (updateConfigMap
        (w.kvStore.setPhase .resumingWrites "Starting to resume writes").setCurrent a w).2 =
        true := by
      unfold updateConfigMap
      simp only [ha.getConfigMap, ha.createConfigMap, ha.updateConfigMap]
      cases w.configMap <;> rfl
    rw [heq] at hok
    cases hok
  · rw [heq]
    refine tidy_updateStatus (w := { w with configMap := _ }) hlabels hpos
      (hsound.setCurrent hne (.inr rfl) _) rfl (hfull.of_objects_eq rfl) rfl fun _ => ?_
    refine ⟨hlabels, hpos, hsound, ?_, ?_⟩
    · simp only [lower, upper, hp']
      exact (hfull.widen le_rfl (le_max_right _ _)).of_objects_eq rfl
    · simp only [ConfigFits, hp']
      exact .inr rfl

theorem Tidy.finalizeScale (h : Tidy r w) (hp : w.phase = .finalizingScale) (ha : Succeeds a) :
    Tidy w.kvStore.spec.replicas (finalizeScale w.kvStore a w) := by
  obtain ⟨hfull, -⟩ := h.at_phase hp
  change Full _ w.kvStore.status.targetShards
    (max w.kvStore.status.currentShards w.kvStore.status.targetShards) w at hfull
  unfold Kvctl.finalizeScale
  simp only
  split_ifs with hup hok
  · rw [max_eq_right hup.le] at hfull
    exact tidy_resumeAfterScale ha rfl hp h.labels h.pos h.sound hfull
  · -- no deletion fails
    exfalso
    rw [deleteGroups_of_forall ha.deleteShard ha.deleteService ha.deleteIngress] at hok
    cases hok
  · rw [Bool.not_eq_true, Bool.not_eq_false'] at hok
    rw [max_eq_left (not_lt.1 hup)] at hfull
    have hkv := (swept_deleteGroups (k := w.kvStore) (a := a) (w := w)).kvStore
    refine tidy_resumeAfterScale ha hkv ?_ ?_ ?_ ?_
      (hfull.deleteGroups le_rfl ha.toLists hok)
    · unfold Cluster.phase
      rw [hkv]
      exact hp
    all_goals rw [hkv]
    · exact h.labels
    · exact h.pos
    · exact h.sound

/-! ### The start of a scale operation -/

theorem Tidy.length_eq (h : Tidy r w) (hp : w.phase = .normal) :
    w.statefulSets.length = w.kvStore.status.currentShards :=
  (h.at_phase hp).1.length_eq

theorem Tidy.full_normal (h : Tidy r w) (hp : w.phase = .normal) :
    Full w.kvStore.name w.statefulSets.length w.statefulSets.length w := by
  rw [h.length_eq hp]
  exact (h.at_phase hp).1

theorem Tidy.scaleUp (h : Tidy r w) (hp : w.phase = .normal) (ha : Succeeds a)
    (hlt : w.statefulSets.length < w.kvStore.spec.shards) (hstart : a.startStatus = true) :
    Tidy w.kvStore.spec.replicas (scaleUp a w) := by
  have hfull := h.full_normal hp
  obtain ⟨h₁, h₂, h₃, hconfig⟩ := scaleUp_of_writes (hfull.writes ha)
  have hkv := kvStore_scaleUp (a := a) (w := w)
  rw [hstart] at hkv
  have hkv' : (Kvctl.scaleUp a w).kvStore = w.startScale := hkv
  have hgrown := Full.grown (k := w.startScale) h.labels hfull h₁ h₂ h₃
  have hmax : w.statefulSets.length + (w.kvStore.spec.shards - w.statefulSets.length) =
      max w.statefulSets.length w.kvStore.spec.shards := by omega
  refine ⟨hkv' ▸ h.labels, hkv' ▸ h.pos, hkv' ▸ sound_startScale hlt.ne, ?_, ?_⟩
  · rw [hkv']
    change Full _ (max w.statefulSets.length w.kvStore.spec.shards)
      (max w.statefulSets.length w.kvStore.spec.shards) _
    rw [← hmax]
    exact hgrown
  · rw [hkv']
    exact hconfig

theorem Tidy.scaleDown (h : Tidy r w) (hp : w.phase = .normal) (ha : Succeeds a)
    (hlt : w.kvStore.spec.shards < w.statefulSets.length)
    (hpersist : a.startStatus = true ∨ a.updateStatus = true) :
    Tidy w.kvStore.spec.replicas (scaleDown a w).1 := by
  have hfull := h.full_normal hp
  rw [scaleDown_of_writes (hfull.writes ha)]
  have hkv : (shrinking a.startStatus w).kvStore.name = w.kvStore.name ∧
      (shrinking a.startStatus w).kvStore.labels = w.kvStore.labels ∧
      (shrinking a.startStatus w).kvStore.spec = w.kvStore.spec := by
    cases a.startStatus <;> exact ⟨rfl, rfl, rfl⟩
  have hfull' : Full w.kvStore.name (max w.statefulSets.length w.kvStore.spec.shards)
      (max w.statefulSets.length w.kvStore.spec.shards) (shrinking a.startStatus w) := by
    rw [max_eq_left hlt.le]
    exact hfull.of_objects_eq (objects_updateStatus _)
  have hconfig : (shrinking a.startStatus w).configMap = some (kvConfig w.kvStore.name
      w.kvStore.spec.replicas w.statefulSets.length w.kvStore.spec.shards) :=
    configMap_updateStatus _
  refine tidy_prepareScale (by rw [hkv.2.1]; exact h.labels) (by rw [hkv.2.2]; exact h.pos)
    (sound_startScale hlt.ne') hkv.2.2.symm rfl (by rw [hkv.1]; exact hfull')
    (by rw [hkv.1]; exact hconfig) fun hupdate => ?_
  -- the first status update has persisted the scale operation
  have hstart : a.startStatus = true := by
    rcases hpersist with hs | hu
    · exact hs
    · rw [hu] at hupdate; cases hupdate
  rw [hstart] at hfull' hconfig ⊢
  exact ⟨h.labels, h.pos, sound_startScale hlt.ne', hfull', hconfig⟩

/-! ### One pass -/

/-- How the number of replicas in the ConfigMap goes on from one pass to the next: a pass that
starts or ends a scale operation writes the one of the spec. -/
def Follows (r r' : ℕ) (w w' : Cluster) : Prop :=
  r' = w.kvStore.spec.replicas ∨ r' = r ∧ (w'.kvStore = w.kvStore ∨ w.phase ≠ .normal)

theorem Tidy.map (h : Tidy r w) {f : StatefulSet → StatefulSet}
    (hf : ∀ x, (f x).toObjectMeta = x.toObjectMeta) :
    Tidy r { w with statefulSets := w.statefulSets.map f } := by
  refine ⟨h.labels, h.pos, h.sound, ⟨?_, h.full.services, h.full.ingresses⟩, h.config⟩
  rw [sets_map hf]
  exact h.full.sets

/-- A pass that does not start a scale operation in `Normal` only brings replicas up to date. -/
theorem reconcile_of_not_starts (hp : w.phase = .normal) (hs : ¬ Starts w) :
    ∃ f : StatefulSet → StatefulSet, (∀ x, (f x).toObjectMeta = x.toObjectMeta) ∧
      (reconcile a w).1 = { w with statefulSets := w.statefulSets.map f } := by
  rcases reconcile_cases a w with ⟨f, hf, heq⟩ | ⟨-, hout, heq⟩ <;> rw [heq]
  · exact ⟨f, hf, rfl⟩
  · have hlength : w.statefulSets.length = w.kvStore.spec.shards := by
      by_contra hne
      exact hs ⟨hout, hp, hne⟩
    have hp' : w.kvStore.status.phase = .normal := hp
    refine ⟨id, fun _ => rfl, ?_⟩
    simp only [reconcilePhase, hp', hlength, lt_irrefl, if_false, List.map_id]

theorem Tidy.reconcilePhase (h : Tidy r w) (ha : Succeeds a) (hout : outdated w = [])
    (hpersist : Starts w → a.startStatus = true ∨
      w.kvStore.spec.shards < w.statefulSets.length ∧ a.updateStatus = true) :
    ∃ r', Tidy r' (reconcilePhase a w).1 ∧ Follows r r' w (reconcilePhase a w).1 := by
  unfold Kvctl.reconcilePhase
  cases hphase : w.kvStore.status.phase with
  | normal =>
    simp only
    split_ifs with hup hdown
    · refine ⟨_, h.scaleUp hphase ha hup ?_, .inl rfl⟩
      rcases hpersist ⟨hout, hphase, hup.ne⟩ with hs | ⟨hlt, -⟩
      · exact hs
      · omega
    · refine ⟨_, h.scaleDown hphase ha hdown ?_, .inl rfl⟩
      exact (hpersist ⟨hout, hphase, hdown.ne'⟩).imp_right And.right
    · exact ⟨r, h, .inr ⟨rfl, .inl rfl⟩⟩
  | finalizingScale => exact ⟨_, h.finalizeScale hphase ha, .inl rfl⟩
  | preparingScale =>
    exact ⟨r, h.prepareScale hphase, .inr ⟨rfl, .inr fun hn => nomatch hn.symm.trans hphase⟩⟩
  | stoppingWrites =>
    exact ⟨r, h.stopWrites hphase, .inr ⟨rfl, .inr fun hn => nomatch hn.symm.trans hphase⟩⟩
  | redistributingKeys =>
    exact ⟨r, h.redistributeKeys hphase, .inr ⟨rfl, .inr fun hn => nomatch hn.symm.trans hphase⟩⟩
  | resumingWrites =>
    exact ⟨r, h.resumeWrites hphase, .inr ⟨rfl, .inr fun hn => nomatch hn.symm.trans hphase⟩⟩
  | scaleComplete => exact ⟨r, h, .inr ⟨rfl, .inl rfl⟩⟩

theorem Tidy.reconcile (h : Tidy r w) (ha : Succeeds a)
    (hpersist : Starts w → a.startStatus = true ∨
      w.kvStore.spec.shards < w.statefulSets.length ∧ a.updateStatus = true) :
    ∃ r', Tidy r' (reconcile a w).1 ∧ Follows r r' w (reconcile a w).1 := by
  rcases reconcile_cases a w with ⟨f, hf, heq⟩ | ⟨-, hout, heq⟩ <;> rw [heq]
  · exact ⟨r, h.map hf, .inr ⟨rfl, .inl rfl⟩⟩
  · exact h.reconcilePhase ha hout hpersist

/-- The rest of a pass, also with a stale copy, as long as that does not start a scale
operation. -/
theorem Tidy.finish {rd : Reading} (h : Tidy r w) (hfits : rd.Fits w) (ha : Succeeds a)
    (hpersist : Starts (rd.view w) → rd.stale = false ∧ (a.startStatus = true ∨
      rd.kvStore.spec.shards < w.statefulSets.length ∧ a.updateStatus = true)) :
    ∃ r', Tidy r' (rd.finish a w) ∧ Follows r r' w (rd.finish a w) := by
  rcases hfits.finish_eq a with ⟨hstale, heq⟩ | ⟨hfresh, heq⟩ <;> rw [heq]
  · have hp : (rd.view w).phase = .normal := by
      change rd.kvStore.status.phase = _
      rw [hfits.status]
      exact hfits.normal hstale
    obtain ⟨f, hf, heq'⟩ := reconcile_of_not_starts (a := rd.answers a) hp fun hs => by
      rw [(hpersist hs).1] at hstale
      cases hstale
    rw [heq']
    exact ⟨r, h.map hf, .inr ⟨rfl, .inl rfl⟩⟩
  · have hview : rd.view w = w := by
      unfold Reading.view
      rw [hfits.fresh hfresh]
    rw [hview, hfits.fresh hfresh] at hpersist
    exact h.reconcile ha fun hs => (hpersist hs).2

theorem Tidy.finished {rd : Reading} (h : Tidy r w) (hfits : rd.Fits w)
    (hpos : 1 ≤ rd.kvStore.spec.shards) (hq : Quiet (rd.view w)) : Finished (rd.view w) := by
  have hp : w.phase = .normal := by
    have := hq.phase
    change rd.kvStore.status.phase = _ at this
    rwa [hfits.status] at this
  have hlength : w.statefulSets.length = rd.kvStore.spec.shards := hq.shards
  have hcur : w.kvStore.status.currentShards = rd.kvStore.spec.shards :=
    (h.length_eq hp).symm.trans hlength
  have hconfig := (configFits_normal hp (hcur ▸ hpos)).1 h.config
  rw [hcur, kvConfig_self _ _ (Nat.one_le_iff_ne_zero.1 hpos), ← hfits.name] at hconfig
  refine ⟨?_, hlength, _, hconfig, map_name_shardConfig _ _ _, rfl⟩
  change rd.kvStore.status.currentShards = rd.kvStore.spec.shards
  rw [hfits.status, hcur]

end Passes

/-! ### Runs -/

/-- The invariant of runs, with a pass under way. -/
structure TidyInv (s : Racing) : Prop where
  coherent : s.Coherent
  cluster : ∃ r, Tidy r s.cluster
  pos : ∀ rd, s.reading = some rd → 1 ≤ rd.kvStore.spec.shards

theorem pos_of_admitted {k : KVStore} {spec : KVStoreSpec} (h : admitted k spec = true) :
    1 ≤ spec.shards := by
  unfold admitted at h
  split at h
  · cases h
  · exact (of_decide_eq_true h).1

theorem Tidy.edit {w : Cluster} {r : ℕ} {spec : KVStoreSpec} {labels : Labels} (h : Tidy r w)
    (hadmitted : admitted w.kvStore spec = true) (hlabels : labels.lookup "group" = none) :
    Tidy r { w with kvStore := { w.kvStore with spec := spec, labels := labels } } := by
  have hp := phase_of_admitted hadmitted
  exact ⟨hlabels, pos_of_admitted hadmitted, ⟨⟨h.sound.complete, fun hne => absurd hp hne,
    h.sound.moving, h.sound.resuming⟩, h.sound.preparing⟩, h.full.of_objects_eq rfl, h.config⟩

theorem Tidy.reorder {w : Cluster} {r : ℕ} {statefulSets : List StatefulSet}
    {services ingresses : List ObjectMeta} (h : Tidy r w) (h₁ : statefulSets.Perm w.statefulSets)
    (h₂ : services.Perm w.services) (h₃ : ingresses.Perm w.ingresses) :
    Tidy r { w with statefulSets := statefulSets, services := services, ingresses := ingresses } :=
  ⟨h.labels, h.pos, h.sound, ⟨h.full.sets.perm (h₁.map _), h.full.services.perm h₂,
    h.full.ingresses.perm h₃⟩, h.config⟩

theorem TidyInv.next {s s' : Racing} {l : Racing.Label} (h : TidyInv s) (hl : Persists s l)
    (hst : s.next l = some s') : TidyInv s' := by
  have hcoherent := h.coherent.next hst
  obtain ⟨r, hr⟩ := h.cluster
  rcases Racing.next_cases hst with ⟨rfl, rfl⟩ | ⟨a, rd, rfl, hrd, rfl⟩ |
    ⟨spec, labels, rfl, hadmitted, rfl⟩ | ⟨x, n, rfl, rfl⟩ | ⟨xs, ys, zs, rfl, h₁, h₂, h₃, rfl⟩
  · refine ⟨hcoherent, ⟨r, hr⟩, fun rd hrd => ?_⟩
    cases hrd
    exact hr.pos
  · obtain ⟨r', hr', -⟩ := hr.finish (h.coherent rd hrd) hl.1 (hl.2 rd hrd)
    exact ⟨hcoherent, ⟨r', hr'⟩, fun _ hnone => absurd hnone (by simp)⟩
  · refine ⟨hcoherent, ⟨r, hr.edit hadmitted hl⟩, fun rd hrd => ?_⟩
    obtain ⟨rd', hrd', rfl⟩ := Option.map_eq_some_iff.1 hrd
    exact h.pos rd' hrd'
  · refine ⟨hcoherent, ⟨r, hr.map fun y => ?_⟩, h.pos⟩
    split_ifs <;> rfl
  · exact ⟨hcoherent, ⟨r, hr.reorder h₁ h₂ h₃⟩, h.pos⟩

theorem tidy_created (name : String) {labels : Labels} {spec : KVStoreSpec} (r : ℕ)
    (hlabels : labels.lookup "group" = none) (hpos : 1 ≤ spec.shards) :
    Tidy r (Racing.created name labels spec).cluster := by
  refine ⟨hlabels, hpos, ⟨⟨nofun, fun hne => absurd rfl hne, ?_, nofun⟩, nofun⟩,
    ⟨Ranked.nil _ _, Ranked.nil _ _, Ranked.nil _ _⟩, ?_⟩
  · simp [Racing.created, created]
  · simp [Racing.created, created, ConfigFits]

/-- **A quiet controller has finished.**  For every run from the creation of a `KVStore` object in
which all calls but status updates succeed, with any admitted edits, also while a `Reconcile` is
under way: if the user never sets the label `group`, and each pass that starts a scale operation
persists it, then a pass that finds nothing to do has found as many StatefulSets and
`CurrentShards` as its spec wants, and a ConfigMap that lists exactly these shards and no new
ones. -/
theorem finished_of_persists (name : String) (labels : Labels) (spec : KVStoreSpec)
    (hlabels : labels.lookup "group" = none) (hpos : 1 ≤ spec.shards) (s : Racing)
    (h : Racing.machine.ReachedBy Persists (Racing.created name labels spec) s) (rd : Reading)
    (hrd : s.reading = some rd) (hq : Quiet (rd.view s.cluster)) :
    Finished (rd.view s.cluster) := by
  have hinv := h.invariant (I := TidyInv)
    ⟨nofun, ⟨0, tidy_created name 0 hlabels hpos⟩, nofun⟩ fun s l s' hi hl hst => hi.next hl hst
  obtain ⟨r, hr⟩ := hinv.cluster
  exact hr.finished (hinv.coherent rd hrd) (hinv.pos rd hrd) hq

theorem succeeds_ok : Succeeds .ok := by
  refine ⟨⟨rfl, rfl, rfl, rfl⟩, rfl, rfl, rfl, rfl, rfl, ?_, ?_, ?_, ?_, ?_, ?_, ?_, ?_, ?_⟩
  all_goals
    intro x
    first
    | rfl
    | exact ⟨_, rfl⟩

/-- A store with one shard is created. -/
theorem finished_of_persists_create :
    ∃ s rd, Racing.machine.ReachedBy Persists (Racing.created "kv" ∅ ⟨1, 1⟩) s ∧
      s.reading = some rd ∧ Quiet (rd.view s.cluster) ∧ Finished (rd.view s.cluster) := by
  have hfresh : ∀ s : Racing, (∀ rd, s.reading = some rd → rd.stale = false) →
      Persists s (.finish .ok) :=
    fun s hs => ⟨succeeds_ok, fun rd hrd _ => ⟨hs rd hrd, .inl rfl⟩⟩
  obtain ⟨s, rd, hs, hrd, hq⟩ : ∃ s rd,
      Racing.machine.ReachedBy Persists (Racing.created "kv" ∅ ⟨1, 1⟩) s ∧
        s.reading = some rd ∧ Quiet (rd.view s.cluster) :=
    ⟨_, _, .head (l := .get) trivial rfl <|
      .head (l := .finish .ok) (hfresh _ (by rintro rd ⟨⟩; rfl)) rfl <|
      .head (l := .change (.ready "kv-shard-0-replica" 1)) trivial rfl <|
      .head (l := .get) trivial rfl <|
      .head (l := .finish .ok) (hfresh _ (by rintro rd ⟨⟩; rfl)) rfl <|
      .head (l := .get) trivial rfl .start, rfl, rfl, rfl, rfl⟩
  exact ⟨s, rd, hs, hrd, hq, finished_of_persists "kv" ∅ ⟨1, 1⟩ (Finmap.lookup_empty _) le_rfl s hs
    rd hrd hq⟩

/-- **A quiet controller has not always finished.**  An edit of the labels races with the pass that
starts a scale-up from one shard to two.  Its status update is rejected and the error is ignored;
the second shard is created, and the next pass finds nothing to do although `CurrentShards` is
still 1. -/
theorem not_finished :
    ¬ ∀ s, Racing.machine.ReachedBy (fun _ l => ∀ a, l = .finish a → Succeeds a)
      (Racing.created "kv" ∅ ⟨1, 1⟩) s →
      ∀ rd, s.reading = some rd → Quiet (rd.view s.cluster) → Finished (rd.view s.cluster) := by
  intro h
  obtain ⟨s, rd, hs, hrd, hq, hcur, hshards⟩ : ∃ s rd,
      Racing.machine.ReachedBy (fun _ l => ∀ a, l = .finish a → Succeeds a)
        (Racing.created "kv" ∅ ⟨1, 1⟩) s ∧ s.reading = some rd ∧ Quiet (rd.view s.cluster) ∧
        rd.kvStore.status.currentShards = 1 ∧ rd.kvStore.spec.shards = 2 := by
    refine ⟨_, _, Machine.ReachedBy.of_run [.get, .finish .ok,
      .change (.ready "kv-shard-0-replica" 1), .get, .finish .ok, .change (.edit ⟨2, 1⟩ ∅), .get,
      .change (.edit ⟨2, 1⟩ ((∅ : Labels).insert "tier" "test")), .finish .ok, .get] ?_ rfl, rfl,
      ⟨rfl, rfl, rfl⟩, rfl, rfl⟩
    rintro l hl - a rfl
    simp only [List.mem_cons, reduceCtorEq, Racing.Label.finish.injEq, List.not_mem_nil, or_false,
      false_or, or_self] at hl
    rw [hl]
    exact succeeds_ok
  have hc : rd.kvStore.status.currentShards = rd.kvStore.spec.shards := (h s hs rd hrd hq).current
  omega

end Kvctl

end ShardedKvs
