import ShardedKvs.Kvctl.Prepare

/-!
# The surplus of a scale-down

`FinalizeScale` deletes the objects whose label `group` names a shard from `TargetShards` on.  The
label was written when the object was created, and the labels that the `KVStore` object had at that
time went on top of it.

* `Finalizes c w` : a scale-down is about to be finalized in `w`, and the objects are those that
  have been created for the shards below `CurrentShards`, with the labels in `c`.
* `Finalizing.machine` : calls of `FinalizeScale` with any failing calls, in any number.
* `TrimsRight` : the shards that stay keep their objects, and when the phase moves on, those that go
  have none left.
* `trimsRight_iff` : **the right objects are deleted in every run, if and only if the group that
  each object carries tells whether its shard goes** (`Creation.Tells`), as it does when the label
  `group` was never set.
* `not_trimsRight` : a label `group` of the `KVStore` object dooms a shard that stays.
-/

namespace ShardedKvs

namespace Kvctl

/-! ### The objects before the scale-down -/

/-- The labels that the `KVStore` object had when the objects of shard `i` were created. -/
structure Creation where
  statefulSets : ℕ → Labels
  services : ℕ → Labels
  ingresses : ℕ → Labels

/-- The objects of one kind are those that have been created for the shards below `CurrentShards`,
in any order. -/
def Made (mk : KVStore → ℕ → ObjectMeta) (k : KVStore) (labels : ℕ → Labels)
    (xs : List ObjectMeta) : Prop :=
  xs.Perm ((List.range k.status.currentShards).map fun i => mk { k with labels := labels i } i)

/-- The name and the labels of the StatefulSet of shard `i`. -/
def shardMeta (k : KVStore) (i : ℕ) : ObjectMeta := (shard k i).toObjectMeta

/-- A scale-down is about to be finalized. -/
structure Finalizes (c : Creation) (w : Cluster) : Prop where
  phase : w.phase = .finalizingScale
  down : w.kvStore.status.targetShards < w.kvStore.status.currentShards
  statefulSets : Made shardMeta w.kvStore c.statefulSets w.sets
  services : Made shardService w.kvStore c.services w.services
  ingresses : Made shardIngress w.kvStore c.ingresses w.ingresses

/-- The group that the object of shard `i` carries is that of a shard that goes if and only if shard
`i` itself goes. -/
def Tells (k : KVStore) (labels : ℕ → Labels) : Prop :=
  ∀ i < k.status.currentShards,
    ((∃ j < k.status.currentShards, k.status.targetShards ≤ j ∧
        ((labels i).lookup "group").getD (shardName k.name i) = shardName k.name j) ↔
      k.status.targetShards ≤ i)

/-- The objects of all kinds carry a group that tells whether their shard goes. -/
structure Creation.Tells (c : Creation) (k : KVStore) : Prop where
  statefulSets : Kvctl.Tells k c.statefulSets
  services : Kvctl.Tells k c.services
  ingresses : Kvctl.Tells k c.ingresses

/-- The `KVStore` object never had a label `group` when an object was created. -/
def Creation.Unlabelled (c : Creation) : Prop :=
  ∀ i, (c.statefulSets i).lookup "group" = none ∧ (c.services i).lookup "group" = none ∧
    (c.ingresses i).lookup "group" = none

/-! ### Finalizing, with retries -/

namespace Finalizing

/-- The steps of the controller and its environment. -/
inductive Label where
  | finalize (a : Answers)
  /-- The API server lists the objects in another order, and replicas of the shards come and go. -/
  | relist (statefulSets : List StatefulSet) (services ingresses : List ObjectMeta)

/-- One step. -/
def next (w : Cluster) : Label → Option Cluster
  | .finalize a =>
    if w.phase = .finalizingScale then some (finalizeScale w.kvStore a w) else none
  | .relist statefulSets services ingresses =>
    if (statefulSets.map StatefulSet.toObjectMeta).Perm w.sets ∧ services.Perm w.services ∧
        ingresses.Perm w.ingresses then
      some { w with statefulSets := statefulSets, services := services, ingresses := ingresses }
    else none

/-- Calls of `FinalizeScale` until the phase moves on. -/
def machine : Machine Cluster Label := ⟨next⟩

/-- The Lists of a call succeed. -/
def Accurate (_ : Cluster) : Label → Prop
  | .finalize a => Lists a
  | .relist .. => True

end Finalizing

/-- The objects of the shards that stay are still there. -/
def Spares (k : KVStore) (nm : ℕ → String) (xs ys : List ObjectMeta) : Prop :=
  ∀ i < k.status.targetShards, ∀ x ∈ xs, x.name = nm i → x ∈ ys

/-- From `w` to `w'` no object of a shard that stays has been deleted, and when the phase has moved
on, no object of a shard that goes is left. -/
structure TrimsRight (w w' : Cluster) : Prop where
  statefulSets : Spares w.kvStore (setName w.kvStore.name) w.sets w'.sets
  services : Spares w.kvStore (shardName w.kvStore.name) w.services w'.services
  ingresses : Spares w.kvStore (ingressName w.kvStore.name) w.ingresses w'.ingresses
  trimmed : w'.phase = .resumingWrites → Trimmed w.kvStore w'

/-! ### One kind of object -/

/-- The group of a new object is that of its shard, or the one that the `KVStore` object sets. -/
theorem group_mk (k : KVStore) (name : String) (i : ℕ) :
    (⟨name, shardLabels k i⟩ : ObjectMeta).group =
      (k.labels.lookup "group").getD (shardName k.name i) := by
  unfold ObjectMeta.group
  cases hg : k.labels.lookup "group" with
  | none => rw [lookup_shardLabels hg]; rfl
  | some g =>
    have hmem : "group" ∈ k.labels := Finmap.mem_iff.2 ⟨g, hg⟩
    have hlookup : (shardLabels k i).lookup "group" = some g :=
      (Finmap.lookup_union_left hmem).trans hg
    rw [hlookup]; rfl

/-- The objects of one kind are named by `nm` and carry the labels of their shard. -/
structure Named (mk : KVStore → ℕ → ObjectMeta) (k : KVStore) (nm : ℕ → String) : Prop where
  injective : Function.Injective nm
  mk_eq : ∀ labels i,
    mk { k with labels := labels } i = ⟨nm i, shardLabels { k with labels := labels } i⟩

theorem named_shardMeta (k : KVStore) : Named shardMeta k (setName k.name) :=
  ⟨setName_injective k.name, fun _ _ => rfl⟩

theorem named_shardService (k : KVStore) : Named shardService k (shardName k.name) :=
  ⟨shardName_injective k.name, fun _ _ => rfl⟩

theorem named_shardIngress (k : KVStore) : Named shardIngress k (ingressName k.name) :=
  ⟨ingressName_injective k.name, fun _ _ => rfl⟩

/-- What is left of a list of objects after deletions, up to the order. -/
structure Remains (p : ObjectMeta → Bool) (xs ys : List ObjectMeta) : Prop where
  subset : ys ⊆ xs
  kept : ∀ x ∈ xs, p x = false → x ∈ ys

namespace Remains

variable {p : ObjectMeta → Bool} {xs ys zs : List ObjectMeta}

theorem trans (h : Remains p xs ys) (h' : Remains p ys zs) : Remains p xs zs :=
  ⟨fun _ hz => h.subset (h'.subset hz), fun x hx hp => h'.kept x (h.kept x hx hp) hp⟩

theorem of_perm (h : ys.Perm xs) : Remains p xs ys :=
  ⟨h.subset, fun _ hx _ => h.symm.subset hx⟩

theorem of_swept (h : Swept p xs ys) : Remains p xs ys := ⟨h.sublist.subset, h.kept⟩

end Remains

section Kind

variable {mk : KVStore → ℕ → ObjectMeta} {k : KVStore} {nm : ℕ → String} {labels : ℕ → Labels}
  {xs ys : List ObjectMeta}

theorem Made.mem_iff (h : Made mk k labels xs) {x : ObjectMeta} :
    x ∈ xs ↔ ∃ i < k.status.currentShards, mk { k with labels := labels i } i = x := by
  unfold Made at h
  rw [h.mem_iff, List.mem_map]
  simp only [List.mem_range]

theorem Named.doomed_iff (hn : Named mk k nm) (i : ℕ) :
    doomed k (mk { k with labels := labels i } i) = true ↔
      ∃ j < k.status.currentShards, k.status.targetShards ≤ j ∧
        ((labels i).lookup "group").getD (shardName k.name i) = shardName k.name j := by
  rw [Kvctl.doomed_iff, hn.mk_eq, group_mk]

/-- Without a label `group` of the `KVStore` object, the group is the name of the shard. -/
theorem tells_of_unlabelled (h : ∀ i, (labels i).lookup "group" = none) : Tells k labels := by
  intro i hi
  rw [h i, Option.getD_none]
  constructor
  · rintro ⟨j, -, hle, hname⟩
    rwa [shardName_injective k.name hname]
  · intro hle
    exact ⟨i, hi, hle, rfl⟩

/-- A shard that stays keeps its object, when the groups tell. -/
theorem Made.spares (h : Made mk k labels xs) (hn : Named mk k nm) (ht : Tells k labels)
    (hr : Remains (doomed k) xs ys) : Spares k nm xs ys := by
  intro i hi x hx hname
  obtain ⟨j, hj, rfl⟩ := h.mem_iff.1 hx
  refine hr.kept _ hx (Bool.eq_false_iff.2 fun hdoomed => ?_)
  -- the name tells the index, and the group would say that the shard goes
  rw [hn.mk_eq] at hname
  have hij : j = i := hn.injective hname
  have := (ht j hj).1 ((hn.doomed_iff j).1 hdoomed)
  omega

/-- A shard that goes has lost its object, when the groups tell and nothing doomed is left. -/
theorem Made.gone (h : Made mk k labels xs) (hn : Named mk k nm) (ht : Tells k labels)
    (hr : Remains (doomed k) xs ys) (hnone : ∀ y ∈ ys, doomed k y = false) :
    ∀ i, k.status.targetShards ≤ i → ∀ y ∈ ys, y.name ≠ nm i := by
  intro i hi y hy hname
  obtain ⟨j, hj, rfl⟩ := h.mem_iff.1 (hr.subset hy)
  have hname' := hname
  rw [hn.mk_eq] at hname'
  have hji : j = i := hn.injective hname'
  have hdoomed : doomed k (mk { k with labels := labels j } j) = true :=
    (hn.doomed_iff j).2 ((ht j hj).2 (by omega))
  rw [hnone _ hy] at hdoomed
  cases hdoomed

/-- When the right objects are left after the doomed ones have gone, the groups tell. -/
theorem Made.tells (h : Made mk k labels xs) (hn : Named mk k nm) (hr : Remains (doomed k) xs ys)
    (hnone : ∀ y ∈ ys, doomed k y = false) (hs : Spares k nm xs ys)
    (hgone : ∀ i, k.status.targetShards ≤ i → ∀ y ∈ ys, y.name ≠ nm i) : Tells k labels := by
  intro i hi
  have hname : (mk { k with labels := labels i } i).name = nm i := by rw [hn.mk_eq]
  have hmem := h.mem_iff.2 ⟨i, hi, rfl⟩
  rw [← hn.doomed_iff]
  constructor
  · intro hdoomed
    by_contra hlt
    rw [hnone _ (hs i (not_le.1 hlt) _ hmem hname)] at hdoomed
    cases hdoomed
  · intro hle
    by_contra hdoomed
    exact hgone i hle _ (hr.kept _ hmem (Bool.eq_false_iff.2 hdoomed)) hname

end Kind

/-! ### One call -/

/-- No object of a doomed group is left. -/
structure Cleared (k : KVStore) (w : Cluster) : Prop where
  statefulSets : ∀ x ∈ w.sets, doomed k x = false
  services : ∀ x ∈ w.services, doomed k x = false
  ingresses : ∀ x ∈ w.ingresses, doomed k x = false

/-- What calls of `FinalizeScale` make of a cluster: only objects of doomed groups go, and the phase
moves on when all of them have gone. -/
structure Finalized (w w' : Cluster) : Prop where
  statefulSets : Remains (doomed w.kvStore) w.sets w'.sets
  services : Remains (doomed w.kvStore) w.services w'.services
  ingresses : Remains (doomed w.kvStore) w.ingresses w'.ingresses
  status : w'.kvStore = w.kvStore ∨ w'.phase = .resumingWrites ∧ Cleared w.kvStore w'

theorem Finalized.refl (w : Cluster) : Finalized w w :=
  ⟨.of_perm (.refl _), .of_perm (.refl _), .of_perm (.refl _), .inl rfl⟩

theorem Finalized.trans {w w' w'' : Cluster} (h : Finalized w w') (hk : w'.kvStore = w.kvStore)
    (h' : Finalized w' w'') : Finalized w w'' := by
  obtain ⟨h₁, h₂, h₃, hstatus⟩ := h'
  rw [hk] at h₁ h₂ h₃ hstatus
  exact ⟨h.statefulSets.trans h₁, h.services.trans h₂, h.ingresses.trans h₃, hstatus⟩

section Call

variable {a : Answers} {w : Cluster}

theorem finalized_finalizeScale
    (hdown : w.kvStore.status.targetShards < w.kvStore.status.currentShards) (ha : Lists a) :
    Finalized w (finalizeScale w.kvStore a w) := by
  have hs := swept_deleteGroups (k := w.kvStore) (a := a) (w := w)
  have hsets : Swept (doomed w.kvStore) w.sets (deleteGroups w.kvStore a w).1.sets :=
    hs.statefulSets.map_toObjectMeta
  unfold finalizeScale
  rw [if_neg (by omega)]
  simp only
  split_ifs with hok
  · exact ⟨.of_swept hsets, .of_swept hs.services, .of_swept hs.ingresses, .inl hs.kvStore⟩
  · rw [Bool.not_eq_true, Bool.not_eq_false'] at hok
    obtain ⟨h₁, h₂, h₃⟩ := deleteGroups_of_true ha.getShards ha.getServices ha.getIngresses hok
    -- the update of the ConfigMap and of the status leaves the objects alone
    have hobj := objects_resumeAfterScale (k := w.kvStore) (a := a)
      (w := (deleteGroups w.kvStore a w).1)
    simp only [Cluster.objects, Prod.mk.injEq] at hobj
    obtain ⟨e₁, e₂, e₃⟩ := hobj
    have esets : (resumeAfterScale w.kvStore a (deleteGroups w.kvStore a w).1).sets =
        (deleteGroups w.kvStore a w).1.sets := congrArg (List.map StatefulSet.toObjectMeta) e₁
    refine ⟨esets ▸ .of_swept hsets, e₂ ▸ .of_swept hs.services, e₃ ▸ .of_swept hs.ingresses, ?_⟩
    rcases kvStore_resumeAfterScale w.kvStore a (deleteGroups w.kvStore a w).1 with hk | hp
    · exact .inl (hk.trans hs.kvStore)
    · refine .inr ⟨hp, fun x hx => ?_, e₂ ▸ h₂, e₃ ▸ h₃⟩
      rw [esets] at hx
      obtain ⟨y, hy, rfl⟩ := List.mem_map.1 hx
      exact h₁ y hy

theorem phase_finalizeScale_ok (k : KVStore) (w : Cluster) :
    (finalizeScale k .ok w).phase = .resumingWrites := by
  have hresume (w : Cluster) : (resumeAfterScale k .ok w).phase = .resumingWrites := by
    unfold resumeAfterScale updateConfigMap
    cases w.configMap <;> rfl
  unfold finalizeScale
  split_ifs
  · exact hresume w
  · have hok : (deleteGroups k .ok w).2 = true :=
      deleteGroups_of_forall (fun _ => rfl) (fun _ => rfl) fun _ => rfl
    simp only [hok, Bool.not_true, Bool.false_eq_true, if_false]
    exact hresume _

end Call

/-! ### Runs -/

section Run

variable {c : Creation} {w w' : Cluster}

theorem Finalized.next {l : Finalizing.Label} {w'' : Cluster} (hw : Finalizes c w)
    (h : Finalized w w') (hl : Finalizing.Accurate w' l)
    (hst : Finalizing.machine.next w' l = some w'') : Finalized w w'' := by
  cases l with
  | finalize a =>
    simp only [Finalizing.machine, Finalizing.next] at hst
    split_ifs at hst with hp
    cases hst
    -- the phase has not moved on, so the object is as it was
    have hk : w'.kvStore = w.kvStore := by
      rcases h.status with hk | ⟨hp', -⟩
      · exact hk
      · rw [hp] at hp'; cases hp'
    exact h.trans hk (finalized_finalizeScale (hk.symm ▸ hw.down) hl)
  | relist xs ys zs =>
    simp only [Finalizing.machine, Finalizing.next] at hst
    split_ifs at hst with hperm
    cases hst
    obtain ⟨h₁, h₂, h₃⟩ := hperm
    refine ⟨h.statefulSets.trans (.of_perm h₁), h.services.trans (.of_perm h₂),
      h.ingresses.trans (.of_perm h₃), ?_⟩
    rcases h.status with hk | ⟨hp, hs⟩
    · exact .inl hk
    · exact .inr ⟨hp, fun x hx => hs.statefulSets x (h₁.subset hx),
        fun x hx => hs.services x (h₂.subset hx), fun x hx => hs.ingresses x (h₃.subset hx)⟩

theorem finalized_of_reached (hw : Finalizes c w)
    (h : Finalizing.machine.ReachedBy Finalizing.Accurate w w') : Finalized w w' :=
  h.invariant (I := Finalized w) (Finalized.refl w) fun _ _ _ hi hl hst => hi.next hw hl hst

/-- The phase moves on when nothing doomed is left. -/
theorem Finalized.cleared (hw : Finalizes c w) (h : Finalized w w')
    (hp : w'.phase = .resumingWrites) : Cleared w.kvStore w' := by
  rcases h.status with hk | ⟨-, hs⟩
  · have hphase := hw.phase
    unfold Cluster.phase at hp hphase
    rw [hk, hphase] at hp
    cases hp
  · exact hs

theorem Finalized.trimsRight (hw : Finalizes c w) (ht : c.Tells w.kvStore) (h : Finalized w w') :
    TrimsRight w w' := by
  refine ⟨hw.statefulSets.spares (named_shardMeta _) ht.statefulSets h.statefulSets,
    hw.services.spares (named_shardService _) ht.services h.services,
    hw.ingresses.spares (named_shardIngress _) ht.ingresses h.ingresses, fun hp => ?_⟩
  have hs := h.cleared hw hp
  refine ⟨fun i hi x hx => ?_,
    hw.services.gone (named_shardService _) ht.services h.services hs.services,
    hw.ingresses.gone (named_shardIngress _) ht.ingresses h.ingresses hs.ingresses⟩
  exact hw.statefulSets.gone (named_shardMeta _) ht.statefulSets h.statefulSets hs.statefulSets i hi
    x.toObjectMeta (List.mem_map_of_mem hx)

/-- The groups tell, when a call in which nothing fails deletes the right objects. -/
theorem tells_of_trimsRight (hw : Finalizes c w)
    (h : TrimsRight w (finalizeScale w.kvStore .ok w)) : c.Tells w.kvStore := by
  have hf : Finalized w (finalizeScale w.kvStore .ok w) :=
    finalized_finalizeScale hw.down ⟨rfl, rfl, rfl, rfl⟩
  have hp := phase_finalizeScale_ok w.kvStore w
  have ht := h.trimmed hp
  have hs := hf.cleared hw hp
  refine ⟨hw.statefulSets.tells (named_shardMeta _) hf.statefulSets hs.statefulSets h.statefulSets
      fun i hi x hx => ?_,
    hw.services.tells (named_shardService _) hf.services hs.services h.services ht.services,
    hw.ingresses.tells (named_shardIngress _) hf.ingresses hs.ingresses h.ingresses ht.ingresses⟩
  obtain ⟨y, hy, rfl⟩ := List.mem_map.1 hx
  exact ht.statefulSets i hi y hy

end Run

/-- **A scale-down deletes the surplus if and only if the groups tell it.**  For every name, all
labels at the times of the creations and all sizes: no run of calls with accurate Lists, whatever
else fails, deletes an object of a shard that stays or moves on with one of a shard that goes, if
and only if the group that each object carries is that of a shard that goes exactly when its own
shard goes.  That is so in particular when the label `group` was never set. -/
theorem trimsRight_iff (c : Creation) (w : Cluster) (hw : Finalizes c w) :
    ((∀ w', Finalizing.machine.ReachedBy Finalizing.Accurate w w' → TrimsRight w w') ↔
        c.Tells w.kvStore) ∧
      (c.Unlabelled →
        ∀ w', Finalizing.machine.ReachedBy Finalizing.Accurate w w' → TrimsRight w w') := by
  refine ⟨⟨fun h => ?_, fun ht w' h => (finalized_of_reached hw h).trimsRight hw ht⟩,
    fun hu w' h => (finalized_of_reached hw h).trimsRight hw
      ⟨tells_of_unlabelled fun i => (hu i).1, tells_of_unlabelled fun i => (hu i).2.1,
        tells_of_unlabelled fun i => (hu i).2.2⟩⟩
  refine tells_of_trimsRight hw (h _ ?_)
  refine .head (l := .finalize .ok) (⟨rfl, rfl, rfl, rfl⟩ : Lists .ok) ?_ .start
  exact if_pos hw.phase

/-- A cluster whose objects have all been created with the present labels. -/
def Cluster.spunUp (k : KVStore) : Cluster where
  kvStore := k
  statefulSets := (List.range k.status.currentShards).map (shard k)
  services := (List.range k.status.currentShards).map (shardService k)
  ingresses := (List.range k.status.currentShards).map (shardIngress k)
  configMap := none

theorem finalizes_spunUp {k : KVStore} (hp : k.status.phase = .finalizingScale)
    (hdown : k.status.targetShards < k.status.currentShards) :
    Finalizes ⟨fun _ => k.labels, fun _ => k.labels, fun _ => k.labels⟩ (.spunUp k) := by
  refine ⟨hp, hdown, ?_, .refl _, .refl _⟩
  unfold Made Cluster.sets Cluster.spunUp
  rw [List.map_map]
  exact .refl _

/-- Two shards become one; the deletion of an Ingress fails at first. -/
theorem trimsRight_iff_retry :
    ∃ w', Finalizing.machine.ReachedBy Finalizing.Accurate
        (.spunUp ⟨"kv", ∅, ⟨1, 1⟩, ⟨.finalizingScale, 2, 1, ""⟩⟩) w' ∧
      w'.phase = .resumingWrites ∧
      TrimsRight (.spunUp ⟨"kv", ∅, ⟨1, 1⟩, ⟨.finalizingScale, 2, 1, ""⟩⟩) w' := by
  obtain ⟨w', hw', hp⟩ : ∃ w', Finalizing.machine.ReachedBy Finalizing.Accurate
      (.spunUp ⟨"kv", ∅, ⟨1, 1⟩, ⟨.finalizingScale, 2, 1, ""⟩⟩) w' ∧ w'.phase = .resumingWrites :=
    ⟨_, .head (l := .finalize { Answers.ok with deleteIngress := fun _ => false })
        (⟨rfl, rfl, rfl, rfl⟩ : Lists _) rfl <|
      .head (l := .finalize .ok) (⟨rfl, rfl, rfl, rfl⟩ : Lists _) rfl .start, rfl⟩
  have ht : Tells ⟨"kv", ∅, ⟨1, 1⟩, ⟨.finalizingScale, 2, 1, ""⟩⟩ fun _ => ∅ := by
    unfold Tells
    decide
  exact ⟨w', hw', hp,
    (trimsRight_iff _ _ (finalizes_spunUp rfl (by decide))).1.2 ⟨ht, ht, ht⟩ w' hw'⟩

/-- **A label of the `KVStore` object dooms a shard that stays.**  Two shards have been created for
an object that is labelled with the group of the second one, and the scale-down to one shard deletes
both. -/
theorem not_trimsRight :
    ¬ ∀ c w, Finalizes c w → 1 ≤ w.kvStore.status.targetShards →
      ∀ w', Finalizing.machine.ReachedBy Finalizing.Accurate w w' → TrimsRight w w' := by
  intro h
  have hr := h _ (.spunUp ⟨"kv", (∅ : Labels).insert "group" "kv-shard-1", ⟨1, 1⟩,
    ⟨.finalizingScale, 2, 1, ""⟩⟩) (finalizes_spunUp rfl (by decide)) (by decide) _
    (.head (l := .finalize .ok) (⟨rfl, rfl, rfl, rfl⟩ : Lists .ok) rfl .start)
  exact absurd (hr.statefulSets 0 (by decide) _ List.mem_cons_self rfl) List.not_mem_nil

end Kvctl

end ShardedKvs
