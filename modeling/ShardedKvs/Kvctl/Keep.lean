import ShardedKvs.Kvctl.Mounts
import ShardedKvs.Kvctl.Replicas

/-!
# What a run of the controller keeps

A StatefulSet takes the volumes of its shard with it when it is deleted.  `FinalizeScale` deletes by
group label, from `TargetShards` on; the numbers come from the status, which passes and edits of
different times have written.

* `objects_reconcile` : what a pass can do to the objects: nothing, create some in `Normal`, delete
  some in `FinalizingScale`.
* `wanted_kept` : **a shard that every admitted spec has wanted is never deleted**, whatever calls
  fail, also the Lists.
* `SameScale`, `one_scale` : **from its start to its end a scale operation is one operation**: its
  spec and its target stay, its phases go forward only, and `CurrentShards` changes once, to
  `TargetShards`.
-/

namespace ShardedKvs

/-- Where a phase stands in a scale operation, which `Normal` ends. -/
def Phase.position : Phase → ℕ
  | .preparingScale => 0
  | .stoppingWrites => 1
  | .redistributingKeys => 2
  | .finalizingScale => 3
  | .resumingWrites => 4
  | .normal => 5
  | .scaleComplete => 6

namespace Kvctl

section Objects

variable {k : KVStore} {a : Answers} {w w' w'' : Cluster} {i : ℕ}

/-! ### What a pass does to the objects -/

/-- The names and labels of all owned objects. -/
def Cluster.metas (w : Cluster) : List ObjectMeta × List ObjectMeta × List ObjectMeta :=
  (w.sets, w.services, w.ingresses)

theorem metas_of_objects_eq (h : w'.objects = w.objects) : w'.metas = w.metas := by
  simp only [Cluster.objects, Prod.mk.injEq] at h
  obtain ⟨h₁, h₂, h₃⟩ := h
  unfold Cluster.metas Cluster.sets
  rw [h₁, h₂, h₃]

/-- The deletions touch nothing but the objects of the doomed groups. -/
structure SweptMetas (k : KVStore) (w w' : Cluster) : Prop where
  sets : Swept (doomed k) w.sets w'.sets
  services : Swept (doomed k) w.services w'.services
  ingresses : Swept (doomed k) w.ingresses w'.ingresses

theorem sweptMetas_finalizeScale : SweptMetas k w (finalizeScale k a w) := by
  have hswept : SweptMetas k w (deleteGroups k a w).1 :=
    ⟨swept_deleteGroups.statefulSets.map_toObjectMeta, swept_deleteGroups.services,
      swept_deleteGroups.ingresses⟩
  have hrest {v v' : Cluster} (h : SweptMetas k v v') :
      SweptMetas k v (resumeAfterScale k a v') := by
    have hm : (resumeAfterScale k a v').metas = v'.metas :=
      metas_of_objects_eq objects_resumeAfterScale
    simp only [Cluster.metas, Prod.mk.injEq] at hm
    obtain ⟨h₁, h₂, h₃⟩ := hm
    exact ⟨h₁ ▸ h.sets, h₂ ▸ h.services, h₃ ▸ h.ingresses⟩
  unfold finalizeScale
  simp only
  split_ifs
  · exact hrest ⟨.refl .., .refl .., .refl ..⟩
  · exact hswept
  · exact hrest hswept

/-- **What a pass can do to the objects**: nothing, create some in `Normal`, or delete some in
`FinalizingScale`. -/
theorem objects_reconcile (a : Answers) (w : Cluster) :
    (reconcile a w).1.metas = w.metas ∨
      w.phase = .normal ∧ Grown w.startScale w (reconcile a w).1 ∨
      w.phase = .finalizingScale ∧ SweptMetas w.kvStore w (reconcile a w).1 := by
  rcases reconcile_cases a w with ⟨f, hf, heq⟩ | ⟨-, -, heq⟩ <;> rw [heq]
  · left
    unfold Cluster.metas
    rw [sets_map hf]
  · unfold reconcilePhase
    cases hp : w.kvStore.status.phase with
    | normal =>
      simp only
      split_ifs
      · exact .inr (.inl ⟨hp, grown_scaleUp⟩)
      · exact .inl (metas_of_objects_eq objects_scaleDown)
      · exact .inl rfl
    | preparingScale => exact .inl (metas_of_objects_eq objects_prepareScale)
    | stoppingWrites =>
      left
      rcases stopWrites_cases w.kvStore a w with ⟨message, heq⟩ | ⟨-, heq⟩ <;> simp only [heq] <;>
        exact metas_of_objects_eq (objects_updateStatus _)
    | redistributingKeys =>
      left
      rcases redistributeKeys_cases w.kvStore a w with ⟨message, heq⟩ | heq <;> simp only [heq] <;>
        exact metas_of_objects_eq (objects_updateStatus _)
    | finalizingScale => exact .inr (.inr ⟨hp, sweptMetas_finalizeScale⟩)
    | resumingWrites =>
      left
      rcases resumeWrites_cases w.kvStore a w with ⟨message, heq⟩ | ⟨-, heq⟩ <;> simp only [heq] <;>
        exact metas_of_objects_eq (objects_updateStatus _)
    | scaleComplete => exact .inl rfl

/-! ### A shard that is wanted -/

/-- Every object is named after a shard and carries its group. -/
structure Owned (name : String) (w : Cluster) : Prop where
  sets : ∀ x ∈ w.sets, ∃ j, x.name = setName name j ∧ x.group = shardName name j
  services : ∀ x ∈ w.services, ∃ j, x.name = shardName name j ∧ x.group = shardName name j
  ingresses : ∀ x ∈ w.ingresses, ∃ j, x.name = ingressName name j ∧ x.group = shardName name j

/-- The objects of shard `i` are still there. -/
structure Retains (name : String) (i : ℕ) (w w' : Cluster) : Prop where
  sets : ∀ x ∈ w.sets, x.name = setName name i → x ∈ w'.sets
  services : ∀ x ∈ w.services, x.name = shardName name i → x ∈ w'.services
  ingresses : ∀ x ∈ w.ingresses, x.name = ingressName name i → x ∈ w'.ingresses

theorem Retains.of_metas_eq {name : String} (h : w'.metas = w.metas) : Retains name i w w' := by
  simp only [Cluster.metas, Prod.mk.injEq] at h
  obtain ⟨h₁, h₂, h₃⟩ := h
  exact ⟨fun x hx _ => h₁ ▸ hx, fun x hx _ => h₂ ▸ hx, fun x hx _ => h₃ ▸ hx⟩

theorem Retains.trans {name : String} (h : Retains name i w w') (h' : Retains name i w' w'') :
    Retains name i w w'' where
  sets x hx hname := h'.sets x (h.sets x hx hname) hname
  services x hx hname := h'.services x (h.services x hx hname) hname
  ingresses x hx hname := h'.ingresses x (h.ingresses x hx hname) hname

theorem Owned.of_metas_eq {name : String} (h : Owned name w) (hm : w'.metas = w.metas) :
    Owned name w' := by
  simp only [Cluster.metas, Prod.mk.injEq] at hm
  obtain ⟨h₁, h₂, h₃⟩ := hm
  exact ⟨h₁ ▸ h.sets, h₂ ▸ h.services, h₃ ▸ h.ingresses⟩

/-- The deletions of a scale-down to more than `i` shards keep the objects of shard `i`. -/
theorem Swept.retains {nm : ℕ → String} {xs ys : List ObjectMeta} (hs : Swept (doomed k) xs ys)
    (hinj : Function.Injective nm)
    (howned : ∀ x ∈ xs, ∃ j, x.name = nm j ∧ x.group = shardName k.name j)
    (hi : i < k.status.targetShards) : ∀ x ∈ xs, x.name = nm i → x ∈ ys := by
  intro x hx hname
  obtain ⟨j, hj, hgroup⟩ := howned x hx
  obtain rfl : j = i := hinj (hj.symm.trans hname)
  refine hs.kept x hx ?_
  rw [Bool.eq_false_iff, Ne, doomed_iff_of_group hgroup]
  omega

/-- Created objects carry the group of their shard. -/
theorem owned_append {nm : ℕ → String} {xs : List ObjectMeta} {m n : ℕ}
    (hlabels : k.labels.lookup "group" = none)
    (howned : ∀ x ∈ xs, ∃ j, x.name = nm j ∧ x.group = shardName k.name j) :
    ∀ x ∈ xs ++ (List.range' m n).map (fun j => (⟨nm j, shardLabels k j⟩ : ObjectMeta)),
      ∃ j, x.name = nm j ∧ x.group = shardName k.name j := by
  intro x hx
  rcases List.mem_append.1 hx with hx | hx
  · exact howned x hx
  · obtain ⟨j, -, rfl⟩ := List.mem_map.1 hx
    exact ⟨j, rfl, group_shardLabels hlabels nm j⟩

theorem Owned.grown (h : Owned k.name w) (hlabels : k.labels.lookup "group" = none)
    (hg : Grown k w w') : Owned k.name w' := by
  obtain ⟨m₁, m₂, m₃, -, h₁, h₂, h₃⟩ := hg
  have hsets : w'.sets = w.sets ++ (List.range' k.status.currentShards m₃).map
      fun j => ⟨setName k.name j, shardLabels k j⟩ := by
    unfold Cluster.sets
    rw [h₃, List.map_append, List.map_map]
    rfl
  refine ⟨?_, ?_, ?_⟩
  · rw [hsets]
    exact owned_append hlabels h.sets
  · rw [h₂]
    exact owned_append hlabels h.services
  · rw [h₁]
    exact owned_append hlabels h.ingresses

theorem retains_of_grown {name : String} (hg : Grown k w w') : Retains name i w w' := by
  obtain ⟨m₁, m₂, m₃, -, h₁, h₂, h₃⟩ := hg
  refine ⟨fun x hx _ => ?_, fun x hx _ => ?_, fun x hx _ => ?_⟩
  · unfold Cluster.sets at hx ⊢
    rw [h₃, List.map_append]
    exact List.mem_append_left _ hx
  · rw [h₂]
    exact List.mem_append_left _ hx
  · rw [h₁]
    exact List.mem_append_left _ hx

theorem Owned.swept {name : String} (h : Owned name w) (hs : SweptMetas k w w') : Owned name w' :=
  ⟨fun x hx => h.sets x (hs.sets.sublist.subset hx),
    fun x hx => h.services x (hs.services.sublist.subset hx),
    fun x hx => h.ingresses x (hs.ingresses.sublist.subset hx)⟩

theorem Owned.retains_swept (h : Owned k.name w) (hs : SweptMetas k w w')
    (hi : i < k.status.targetShards) : Retains k.name i w w' :=
  ⟨hs.sets.retains (setName_injective _) h.sets hi,
    hs.services.retains (shardName_injective _) h.services hi,
    hs.ingresses.retains (ingressName_injective _) h.ingresses hi⟩

theorem Owned.reconcile (h : Owned w.kvStore.name w)
    (hlabels : w.kvStore.labels.lookup "group" = none)
    (hi : w.phase = .finalizingScale → i < w.kvStore.status.targetShards) :
    Owned w.kvStore.name (reconcile a w).1 ∧
      Retains w.kvStore.name i w (Kvctl.reconcile a w).1 := by
  rcases objects_reconcile a w with hm | ⟨-, hg⟩ | ⟨hp, hs⟩
  · exact ⟨h.of_metas_eq hm, .of_metas_eq hm⟩
  · exact ⟨h.grown (k := w.startScale) hlabels hg, retains_of_grown hg⟩
  · exact ⟨h.swept hs, h.retains_swept hs (hi hp)⟩

end Objects

/-- Every admitted spec wants more than `i` shards, and no label `group` is set. -/
def Wants (i : ℕ) : Racing.Label → Prop
  | .change (.edit spec labels) => i < spec.shards ∧ labels.lookup "group" = none
  | _ => True

/-- The invariant of such runs. -/
structure KeepInv (name : String) (i : ℕ) (s : Racing) : Prop where
  coherent : s.Coherent
  sound : s.cluster.kvStore.Sound
  named : s.cluster.kvStore.name = name
  wanted : i < s.cluster.kvStore.spec.shards
  labels : s.cluster.kvStore.labels.lookup "group" = none
  reading : ∀ rd, s.reading = some rd → rd.kvStore.labels.lookup "group" = none
  owned : Owned name s.cluster

section Runs

variable {name : String} {i : ℕ} {s s' : Racing} {l : Racing.Label}

/-- The deletions are those of the spec. -/
theorem KVStore.Sound.target_of_finalizing {k : KVStore} (h : k.Sound)
    (hp : k.status.phase = .finalizingScale) : k.status.targetShards = k.spec.shards :=
  h.target (by rw [hp]; exact Phase.noConfusion)

/-- A pass that is under way, also one with a stale copy. -/
theorem KeepInv.finish (h : KeepInv name i s) {rd : Reading} (hrd : s.reading = some rd)
    (a : Answers) : Owned name (rd.finish a s.cluster) ∧
      Retains name i s.cluster (rd.finish a s.cluster) := by
  have hfits := h.coherent rd hrd
  have hname := h.named
  rcases hfits.finish_eq a with ⟨hstale, heq⟩ | ⟨-, heq⟩ <;> rw [heq]
  · -- the stale copy is in `Normal`, and a pass deletes nothing there
    have hview : (rd.view s.cluster).kvStore.name = name := hfits.name.trans hname
    have hphase : (rd.view s.cluster).phase ≠ .finalizingScale := by
      rw [Cluster.phase, hfits.phase_view hstale]
      exact Phase.noConfusion
    have howned : Owned (rd.view s.cluster).kvStore.name (rd.view s.cluster) := by
      rw [hview]
      exact ⟨h.owned.sets, h.owned.services, h.owned.ingresses⟩
    obtain ⟨h₁, h₂⟩ := howned.reconcile (a := rd.answers a) (h.reading rd hrd)
      (fun hp => absurd hp hphase)
    rw [hview] at h₁ h₂
    exact ⟨⟨h₁.sets, h₁.services, h₁.ingresses⟩, ⟨h₂.sets, h₂.services, h₂.ingresses⟩⟩
  · have howned : Owned s.cluster.kvStore.name s.cluster := hname.symm ▸ h.owned
    have hi : s.cluster.phase = .finalizingScale → i < s.cluster.kvStore.status.targetShards := by
      intro hp
      rw [h.sound.target_of_finalizing hp]
      exact h.wanted
    have hpass := howned.reconcile (a := a) h.labels hi
    rw [hname] at hpass
    exact hpass

theorem KeepInv.next (h : KeepInv name i s) (hl : Wants i l)
    (hst : Racing.machine.next s l = some s') :
    KeepInv name i s' ∧ Retains name i s.cluster s'.cluster := by
  have hcoherent := h.coherent.next hst
  have hsound := h.coherent.sound_next h.sound hst
  rcases Racing.next_cases hst with ⟨rfl, rfl⟩ | ⟨a, rd, rfl, hrd, rfl⟩ |
    ⟨spec, labels, rfl, -, rfl⟩ | ⟨x, n, rfl, rfl⟩ | ⟨xs, ys, zs, rfl, h₁, h₂, h₃, rfl⟩
  · refine ⟨⟨hcoherent, hsound, h.named, h.wanted, h.labels, fun rd hrd => ?_, h.owned⟩,
      .of_metas_eq rfl⟩
    cases hrd
    exact h.labels
  · obtain ⟨howned, hretains⟩ := h.finish hrd a
    obtain ⟨st, hkv⟩ := (h.coherent rd hrd).restated_finish (a := a)
    refine ⟨⟨hcoherent, hsound, ?_, ?_, ?_, fun rd' hrd' => (by cases hrd'), howned⟩, hretains⟩
    · rw [hkv]
      exact h.named
    · rw [hkv]
      exact h.wanted
    · rw [hkv]
      exact h.labels
  · refine ⟨⟨hcoherent, hsound, h.named, hl.1, hl.2, fun rd hrd => ?_,
      ⟨h.owned.sets, h.owned.services, h.owned.ingresses⟩⟩, .of_metas_eq rfl⟩
    obtain ⟨rd', hrd', rfl⟩ := Option.map_eq_some_iff.1 hrd
    exact h.reading rd' hrd'
  · have hm : ({ s.cluster with statefulSets := s.cluster.statefulSets.map fun y =>
        if y.name = x then { y with readyReplicas := n } else y } : Cluster).metas =
        s.cluster.metas := by
      unfold Cluster.metas
      rw [sets_map fun y => by split_ifs <;> rfl]
    exact ⟨⟨hcoherent, hsound, h.named, h.wanted, h.labels, h.reading, h.owned.of_metas_eq hm⟩,
      .of_metas_eq hm⟩
  · have hsets := h₁.map StatefulSet.toObjectMeta
    refine ⟨⟨hcoherent, hsound, h.named, h.wanted, h.labels, h.reading, ?_⟩, ?_⟩
    · exact ⟨fun x hx => h.owned.sets x (hsets.subset hx),
        fun x hx => h.owned.services x (h₂.subset hx),
        fun x hx => h.owned.ingresses x (h₃.subset hx)⟩
    · exact ⟨fun x hx _ => hsets.symm.subset hx, fun x hx _ => h₂.symm.subset hx,
        fun x hx _ => h₃.symm.subset hx⟩

theorem sound_created (name : String) (labels : Labels) (spec : KVStoreSpec) :
    (Racing.created name labels spec).cluster.kvStore.Sound := by
  refine ⟨⟨?_, fun hne => absurd rfl hne, ?_, ?_⟩, ?_⟩ <;> intro h <;>
    simp [Racing.created, created] at h

theorem keepInv_created {labels : Labels} {spec : KVStoreSpec} (hi : i < spec.shards)
    (hlabels : labels.lookup "group" = none) :
    KeepInv name i (Racing.created name labels spec) where
  coherent rd hrd := by cases hrd
  sound := sound_created name labels spec
  named := rfl
  wanted := hi
  labels := hlabels
  reading rd hrd := by cases hrd
  owned := ⟨fun x hx => (by cases hx), fun x hx => (by cases hx), fun x hx => (by cases hx)⟩

/-- **A shard that is always wanted is never deleted.**  Take any run of the controller in which
every spec, that of the creation and those of all admitted edits, asks for more than `i` shards, and
no label `group` is set on the object: whatever calls fail, also the Lists, whatever the shards
answer and however edits race with passes, the StatefulSet, the Service and the Ingress of shard `i`
are never deleted once they exist. -/
theorem wanted_kept (name : String) (labels : Labels) (spec : KVStoreSpec) (i : ℕ)
    (hi : i < spec.shards) (hlabels : labels.lookup "group" = none)
    (hs : Racing.machine.ReachedBy (fun _ => Wants i) (Racing.created name labels spec) s)
    (hs' : Racing.machine.ReachedBy (fun _ => Wants i) s s') :
    Retains name i s.cluster s'.cluster := by
  have hinv : KeepInv name i s := hs.invariant (I := KeepInv name i) (keepInv_created hi hlabels)
    fun _ _ _ h hl hst => (h.next hl hst).1
  refine (hs'.invariant (I := fun s' => KeepInv name i s' ∧ Retains name i s.cluster s'.cluster)
    ⟨hinv, .of_metas_eq rfl⟩ ?_).2
  intro s₁ l s₂ ⟨h, hretains⟩ hl hst
  obtain ⟨h', hretains'⟩ := h.next hl hst
  exact ⟨h', hretains.trans hretains'⟩

/-- The steps that make a store with two shards. -/
def twoShards : List Racing.Label :=
  [.get, .finish .ok, .change (.ready "kv-shard-0-replica" 1),
    .change (.ready "kv-shard-1-replica" 1), .get, .finish .ok]

/-- The steps of a scale-down to one shard, as far as the deletions. -/
def oneShard : List Racing.Label :=
  [.change (.edit ⟨1, 1⟩ ∅), .get, .finish .ok, .get, .finish .ok, .get, .finish .ok, .get,
    .finish .ok]

/-- The store `kv` after some steps. -/
def stepped (ls : List Racing.Label) : Racing :=
  (Racing.machine.run (Racing.created "kv" ∅ ⟨2, 1⟩) ls).getD (Racing.created "kv" ∅ ⟨2, 1⟩)

/-- Two shards become one: the first one stays. -/
theorem wanted_kept_first :
    (stepped twoShards).cluster.statefulSets.length = 2 ∧
      (stepped (twoShards ++ oneShard)).cluster.statefulSets.length = 1 ∧
      Retains "kv" 0 (stepped twoShards).cluster (stepped (twoShards ++ oneShard)).cluster := by
  have hs : Racing.machine.ReachedBy (fun _ => Wants 0) (Racing.created "kv" ∅ ⟨2, 1⟩)
      (stepped twoShards) := .of_run twoShards (by simp [twoShards, Wants]) rfl
  have hs' : Racing.machine.ReachedBy (fun _ => Wants 0) (stepped twoShards)
      (stepped (twoShards ++ oneShard)) := .of_run oneShard (by simp [oneShard, Wants]) rfl
  exact ⟨rfl, rfl, wanted_kept "kv" ∅ ⟨2, 1⟩ 0 (by decide) (by simp) hs hs'⟩

end Runs

/-! ### One scale operation -/

/-- The status goes on in one scale operation. -/
structure Onward (st st' : KVStoreStatus) : Prop where
  phase : st.phase.position ≤ st'.phase.position
  target : st'.targetShards = st.targetShards
  current : st'.currentShards = st.currentShards ∨
    st'.currentShards = st.targetShards ∧ (st'.phase = .resumingWrites ∨ st'.phase = .normal)

section Onward

variable {st st' st'' : KVStoreStatus} {k : KVStore} {a : Answers} {w w' : Cluster}

theorem Onward.refl (st : KVStoreStatus) : Onward st st := ⟨Nat.le_refl _, rfl, .inl rfl⟩

/-- What comes after `ResumingWrites`, up to the end of the operation. -/
theorem end_of_position {p q : Phase} (hp : p = .resumingWrites ∨ p = .normal)
    (hpq : p.position ≤ q.position) (hq : q ≠ .scaleComplete) :
    q = .resumingWrites ∨ q = .normal := by
  rcases hp with rfl | rfl <;> cases q <;> simp_all [Phase.position]

theorem Onward.trans (h : Onward st st') (h' : Onward st' st'') (hc : st''.phase ≠ .scaleComplete) :
    Onward st st'' := by
  refine ⟨h.phase.trans h'.phase, h'.target.trans h.target, ?_⟩
  rcases h'.current with heq | ⟨heq, hp⟩
  · rcases h.current with heq' | ⟨heq', hp⟩
    · exact .inl (heq.trans heq')
    · exact .inr ⟨heq.trans heq', end_of_position hp h'.phase hc⟩
  · exact .inr ⟨heq.trans h.target, hp⟩

theorem Onward.updateStatus (h : Onward st k.status) (hw : w.kvStore.status = st) (ok : Bool) :
    Onward st (updateStatus ok k w).kvStore.status := by
  subst hw
  cases ok with
  | true => exact h
  | false => exact .refl _

theorem onward_setMessage (k : KVStore) (message : String) :
    Onward k.status (k.setMessage message).status := ⟨Nat.le_refl _, rfl, .inl rfl⟩

theorem onward_setPhase {p : Phase} (h : k.status.phase.position ≤ p.position) (message : String) :
    Onward k.status (k.setPhase p message).status := ⟨h, rfl, .inl rfl⟩

theorem onward_setCurrent {p : Phase} (h : k.status.phase.position ≤ p.position)
    (hp : p = .resumingWrites ∨ p = .normal) (message : String) :
    Onward k.status (k.setPhase p message).setCurrent.status := ⟨h, rfl, .inr ⟨rfl, hp⟩⟩

theorem onward_resumeAfterScale (hw : w.kvStore = k) (hp : k.status.phase = .finalizingScale) :
    Onward k.status (resumeAfterScale k a w).kvStore.status := by
  have hle : k.status.phase.position ≤ Phase.resumingWrites.position := by
    rw [hp]
    decide
  rcases resumeAfterScale_cases k a w with heq | heq <;> rw [heq]
  · rw [hw]
    exact .refl _
  · subst hw
    refine (onward_setCurrent hle (.inl rfl) _).updateStatus ?_ _
    rfl

theorem onward_reconcilePhase (hne : w.phase ≠ .normal) :
    Onward w.kvStore.status (reconcilePhase a w).1.kvStore.status := by
  unfold reconcilePhase
  cases hp : w.kvStore.status.phase with
  | normal => exact absurd hp hne
  | preparingScale =>
    have hle : ∀ q : Phase, w.kvStore.status.phase.position ≤ q.position := by
      rw [hp]
      exact fun q => Nat.zero_le _
    rcases prepareScale_cases w.kvStore a w with ⟨message, heq⟩ | ⟨-, heq⟩ | ⟨-, heq⟩ <;>
      simp only [heq]
    · exact (onward_setMessage _ _).updateStatus rfl _
    · exact (onward_setCurrent (hle _) (.inr rfl) _).updateStatus rfl _
    · exact (onward_setPhase (hle _) _).updateStatus rfl _
  | stoppingWrites =>
    rcases stopWrites_cases w.kvStore a w with ⟨message, heq⟩ | ⟨-, heq⟩ <;> simp only [heq]
    · exact (onward_setMessage _ _).updateStatus rfl _
    · exact (onward_setPhase (by rw [hp]; decide) _).updateStatus rfl _
  | redistributingKeys =>
    rcases redistributeKeys_cases w.kvStore a w with ⟨message, heq⟩ | heq <;> simp only [heq]
    · exact (onward_setMessage _ _).updateStatus rfl _
    · exact (onward_setPhase (by rw [hp]; decide) _).updateStatus rfl _
  | finalizingScale =>
    have hkv := (swept_deleteGroups (k := w.kvStore) (a := a) (w := w)).kvStore
    unfold finalizeScale
    simp only
    split_ifs
    · exact onward_resumeAfterScale rfl hp
    · rw [hkv]
      exact .refl _
    · exact onward_resumeAfterScale hkv hp
  | resumingWrites =>
    rcases resumeWrites_cases w.kvStore a w with ⟨message, heq⟩ | ⟨-, heq⟩ <;> simp only [heq]
    · exact (onward_setMessage _ _).updateStatus rfl _
    · exact (onward_setCurrent (by rw [hp]; decide) (.inr rfl) _).updateStatus rfl _
  | scaleComplete => exact .refl _

theorem onward_reconcile (hne : w.phase ≠ .normal) :
    Onward w.kvStore.status (reconcile a w).1.kvStore.status := by
  rcases reconcile_cases a w with ⟨f, -, heq⟩ | ⟨-, -, heq⟩ <;> rw [heq]
  · exact .refl _
  · exact onward_reconcilePhase hne

end Onward

/-- The two states belong to one scale operation: only the status of the object differs, and that
has gone on. -/
structure SameScale (w w' : Cluster) : Prop where
  restated : Restated w w'
  onward : Onward w.kvStore.status w'.kvStore.status

theorem sameScale_next {s s' : Racing} {l : Racing.Label} (h : s.Coherent)
    (hne : s.cluster.phase ≠ .normal) (hst : Racing.machine.next s l = some s') :
    SameScale s.cluster s'.cluster := by
  rcases Racing.next_cases hst with ⟨-, rfl⟩ | ⟨a, rd, -, hrd, rfl⟩ |
    ⟨spec, labels, -, hadmitted, -⟩ | ⟨x, n, -, rfl⟩ | ⟨xs, ys, zs, -, -, -, -, rfl⟩
  · exact ⟨.of_eq rfl, .refl _⟩
  · refine ⟨(h rd hrd).restated_finish, ?_⟩
    rcases (h rd hrd).finish_eq a with ⟨hstale, -⟩ | ⟨-, heq⟩
    · exact absurd ((h rd hrd).normal hstale) hne
    · simp only [heq]
      exact onward_reconcile hne
  · -- the webhook refuses the edit
    exact absurd (phase_of_admitted hadmitted) hne
  · exact ⟨.of_eq rfl, .refl _⟩
  · exact ⟨.of_eq rfl, .refl _⟩

/-- **A scale operation is one operation from its start to its end.**  Take any reachable state
outside `Normal` and any run from it on that stays outside `Normal` up to its last step, whatever
fails and whatever the shards answer: the name, the labels and the spec of the object and the target
are those of the first state, no phase is gone back to, and `CurrentShards` is the same or, in
`ResumingWrites` and at the end, the target. -/
theorem one_scale (name : String) (labels : Labels) (spec : KVStoreSpec) {s s' : Racing}
    (hs : Racing.machine.Reached (Racing.created name labels spec) s)
    (hs' : Racing.machine.ReachedBy (fun s _ => s.cluster.phase ≠ .normal) s s') :
    SameScale s.cluster s'.cluster := by
  have hinv : s.Coherent ∧ s.cluster.kvStore.Sound := by
    refine hs.invariant (I := fun s => s.Coherent ∧ s.cluster.kvStore.Sound)
      ⟨fun rd hrd => (by cases hrd), sound_created name labels spec⟩ ?_
    exact fun s l s' h _ hst => ⟨h.1.next hst, h.1.sound_next h.2 hst⟩
  refine (hs'.invariant (I := fun s' => (s'.Coherent ∧ s'.cluster.kvStore.Sound) ∧
    SameScale s.cluster s'.cluster) ⟨hinv, .of_eq rfl, .refl _⟩ ?_).2
  intro s₁ l s₂ ⟨⟨hcoherent, hsound⟩, hsame⟩ hne hst
  have hsound' := hcoherent.sound_next hsound hst
  have hstep := sameScale_next hcoherent hne hst
  exact ⟨⟨hcoherent.next hst, hsound'⟩, hsame.restated.trans hstep.restated,
    hsame.onward.trans hstep.onward hsound'.complete⟩

/-- A scale-down from its first pass to the end of its deletions. -/
theorem one_scale_shrinking :
    SameScale (stepped (twoShards ++ oneShard.take 3)).cluster
      (stepped (twoShards ++ oneShard)).cluster := by
  have hs : Racing.machine.Reached (Racing.created "kv" ∅ ⟨2, 1⟩)
      (stepped (twoShards ++ oneShard.take 3)) := .of_run (twoShards ++ oneShard.take 3) rfl
  have hs' : Racing.machine.ReachedBy (fun s _ => s.cluster.phase ≠ .normal)
      (stepped (twoShards ++ oneShard.take 3)) (stepped (twoShards ++ oneShard)) :=
    .head (l := .get) (by decide) rfl <| .head (l := .finish .ok) (by decide) rfl <|
    .head (l := .get) (by decide) rfl <| .head (l := .finish .ok) (by decide) rfl <|
    .head (l := .get) (by decide) rfl <| .head (l := .finish .ok) (by decide) rfl .start
  exact one_scale "kv" ∅ ⟨2, 1⟩ hs hs'

end Kvctl

end ShardedKvs
