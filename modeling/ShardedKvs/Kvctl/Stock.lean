import Mathlib.Data.List.Perm.Basic
import ShardedKvs.Kvctl.View

/-!
# The objects of the shards

The StatefulSet, the Service and the Ingress of a shard are named after its index and carry its
group.  Nothing else ties them together: each of them is created and deleted by a call of its own,
and the controller only counts the StatefulSets.

* `Ranked name nm lo hi xs` : of one kind of object, the shards below `lo` have one each, and no
  shard from `hi` on has one; when the bounds meet, the objects are those of the shards below
  (`Ranked.names_perm`).
* `Ranked.swept`, `Ranked.trimmed` : the deletions of a scale-down.
* `Grown`, `Ranked.append` : the creations of a scale-up, which may stop anywhere.
* `Stocked name lo hi w` : the shards below `lo` have all their objects, and no StatefulSet has an
  index `hi` or more.
-/

namespace ShardedKvs

namespace Kvctl

/-- Every object belongs to a shard, which its group tells, and the shards below `n` have one. -/
structure Stock (name : String) (nm : ℕ → String) (n : ℕ) (xs : List ObjectMeta) : Prop where
  owned : ∀ x ∈ xs, ∃ i, x.name = nm i ∧ x.group = shardName name i
  has : ∀ i < n, ∃ x ∈ xs, x.name = nm i

namespace Stock

variable {name : String} {nm : ℕ → String} {n m : ℕ} {xs ys : List ObjectMeta}

theorem mono (h : Stock name nm n xs) (hmn : m ≤ n) : Stock name nm m xs :=
  ⟨h.owned, fun i hi => h.has i (hi.trans_le hmn)⟩

theorem perm (h : Stock name nm n xs) (hp : ys.Perm xs) : Stock name nm n ys := by
  refine ⟨fun x hx => h.owned x (hp.subset hx), fun i hi => ?_⟩
  obtain ⟨x, hx, hname⟩ := h.has i hi
  exact ⟨x, hp.symm.subset hx, hname⟩

theorem append {mk : ℕ → ObjectMeta} (h : Stock name nm n xs) (hname : ∀ i, (mk i).name = nm i)
    (hgroup : ∀ i, (mk i).group = shardName name i) (m : ℕ) :
    Stock name nm (n + m) (xs ++ (List.range' n m).map mk) := by
  refine ⟨fun x hx => ?_, fun i hi => ?_⟩
  · rcases List.mem_append.1 hx with hmem | hmem
    · exact h.owned x hmem
    · obtain ⟨i, -, rfl⟩ := List.mem_map.1 hmem
      exact ⟨i, hname i, hgroup i⟩
  · by_cases hin : i < n
    · obtain ⟨x, hx, hx'⟩ := h.has i hin
      exact ⟨x, List.mem_append_left _ hx, hx'⟩
    · refine ⟨mk i, List.mem_append_right _ (List.mem_map.2 ⟨i, ?_, rfl⟩), hname i⟩
      rw [List.mem_range'_1]
      omega

theorem swept {k : KVStore} (h : Stock k.name nm n xs) (hinj : Function.Injective nm)
    (hs : Swept (doomed k) xs ys) (hn : k.status.targetShards ≤ n) :
    Stock k.name nm k.status.targetShards ys := by
  refine ⟨fun x hx => h.owned x (hs.sublist.subset hx), fun i hi => ?_⟩
  obtain ⟨x, hx, hname⟩ := h.has i (hi.trans_le hn)
  refine ⟨x, hs.kept x hx ?_, hname⟩
  -- the group tells the index, which is below `TargetShards`
  obtain ⟨j, hj, hgroup⟩ := h.owned x hx
  have hji : i = j := hinj (hname.symm.trans hj)
  subst hji
  rw [Bool.eq_false_iff, Ne, doomed_iff_of_group hgroup]
  omega

end Stock

theorem setName_injective (name : String) : Function.Injective (setName name) := by
  intro i j h
  exact shardName_injective name (String.append_left_inj _ |>.1 h)

theorem ingressName_injective (name : String) : Function.Injective (ingressName name) := by
  intro i j h
  exact shardName_injective name (String.append_left_inj _ |>.1 h)

/-- The objects that a pass creates carry the group of their shard, unless the labels of the
`KVStore` object set another one. -/
theorem lookup_shardLabels {k : KVStore} (h : k.labels.lookup "group" = none) (i : ℕ) :
    (shardLabels k i).lookup "group" = some (shardName k.name i) := by
  unfold shardLabels
  rw [Finmap.lookup_union_right (Finmap.lookup_eq_none.1 h), Finmap.lookup_insert]

/-! ### One kind of object -/

/-- The objects of one kind: those of the shards below `lo` exist, no two have one name, and none
has an index `hi` or more. -/
structure Ranked (name : String) (nm : ℕ → String) (lo hi : ℕ) (xs : List ObjectMeta) : Prop where
  stock : Stock name nm lo xs
  nodup : (xs.map ObjectMeta.name).Nodup
  bound : ∀ x ∈ xs, ∀ i, x.name = nm i → i < hi

namespace Ranked

variable {name : String} {nm : ℕ → String} {lo hi lo' hi' n : ℕ} {xs ys : List ObjectMeta}

theorem nil (name : String) (nm : ℕ → String) : Ranked name nm 0 0 [] :=
  ⟨⟨nofun, fun i hi => absurd hi (Nat.not_lt_zero i)⟩, List.nodup_nil, nofun⟩

theorem widen (h : Ranked name nm lo hi xs) (hlo : lo' ≤ lo) (hhi : hi ≤ hi') :
    Ranked name nm lo' hi' xs :=
  ⟨h.stock.mono hlo, h.nodup, fun x hx i hname => (h.bound x hx i hname).trans_le hhi⟩

theorem perm (h : Ranked name nm lo hi xs) (hp : ys.Perm xs) : Ranked name nm lo hi ys :=
  ⟨h.stock.perm hp, (hp.map _).nodup_iff.2 h.nodup, fun x hx => h.bound x (hp.subset hx)⟩

/-- When the bounds meet, the objects are exactly those of the shards below. -/
theorem names_perm (h : Ranked name nm n n xs) (hinj : Function.Injective nm) :
    (xs.map ObjectMeta.name).Perm ((List.range n).map nm) := by
  -- no name occurs twice, so it is enough to compare the members
  refine (List.perm_ext_iff_of_nodup h.nodup (List.nodup_range.map hinj)).2 fun a => ?_
  simp only [List.mem_map, List.mem_range]
  constructor
  · rintro ⟨x, hx, rfl⟩
    obtain ⟨i, hname, -⟩ := h.stock.owned x hx
    exact ⟨i, h.bound x hx i hname, hname.symm⟩
  · rintro ⟨i, hi, rfl⟩
    obtain ⟨x, hx, hname⟩ := h.stock.has i hi
    exact ⟨x, hx, hname⟩

theorem length_eq (h : Ranked name nm n n xs) (hinj : Function.Injective nm) : xs.length = n := by
  have hlength := (h.names_perm hinj).length_eq
  rwa [List.length_map, List.length_map, List.length_range] at hlength

theorem append {mk : ℕ → ObjectMeta} (h : Ranked name nm n n xs) (hinj : Function.Injective nm)
    (hname : ∀ i, (mk i).name = nm i) (hgroup : ∀ i, (mk i).group = shardName name i) (m : ℕ) :
    Ranked name nm (n + m) (n + m) (xs ++ (List.range' n m).map mk) := by
  refine ⟨h.stock.append hname hgroup m, ?_, fun x hx i hi => ?_⟩
  · rw [List.map_append, List.nodup_append, List.map_map]
    refine ⟨h.nodup, List.Nodup.map ?_ List.nodup_range', fun a ha b hb hab => ?_⟩
    · intro i j hij
      have hij' : (mk i).name = (mk j).name := hij
      rw [hname, hname] at hij'
      exact hinj hij'
    · obtain ⟨x, hx, rfl⟩ := List.mem_map.1 ha
      obtain ⟨i, hi, rfl⟩ := List.mem_map.1 hb
      have := h.bound x hx i (hab.trans (hname i))
      have := (List.mem_range'_1.1 hi).1
      omega
  · rcases List.mem_append.1 hx with hmem | hmem
    · have := h.bound x hmem i hi
      omega
    · obtain ⟨j, hj, rfl⟩ := List.mem_map.1 hmem
      rw [← hinj ((hname j).symm.trans hi)]
      exact (List.mem_range'_1.1 hj).2

theorem swept {k : KVStore} (h : Ranked k.name nm lo hi xs) (hinj : Function.Injective nm)
    (hs : Swept (doomed k) xs ys) (hlo : k.status.targetShards ≤ lo) :
    Ranked k.name nm k.status.targetShards hi ys :=
  ⟨h.stock.swept hinj hs hlo, h.nodup.sublist (hs.sublist.map _),
    fun x hx => h.bound x (hs.sublist.subset hx)⟩

/-- Once no object of a doomed group is left, the objects are those below `TargetShards`. -/
theorem trimmed {k : KVStore} (h : Ranked k.name nm lo k.status.currentShards xs)
    (hinj : Function.Injective nm) (hdoomed : ∀ x ∈ xs, doomed k x = false) :
    Ranked k.name nm lo k.status.targetShards xs := by
  refine ⟨h.stock, h.nodup, fun x hx i hname => ?_⟩
  by_contra hi
  obtain ⟨j, hj, hgroup⟩ := h.stock.owned x hx
  have hji : j = i := hinj (hj.symm.trans hname)
  subst hji
  have htrue := doomed_of_deletable (not_lt.1 hi) ⟨h.bound x hx j hname, hgroup⟩
  rw [hdoomed x hx] at htrue
  cases htrue

end Ranked

/-! ### The objects of a cluster -/

/-- The names and labels of the StatefulSets. -/
def Cluster.sets (w : Cluster) : List ObjectMeta := w.statefulSets.map StatefulSet.toObjectMeta

/-- The shards below `lo` have all their objects, and no StatefulSet has an index `hi` or more. -/
structure Stocked (name : String) (lo hi : ℕ) (w : Cluster) : Prop where
  sets : Stock name (setName name) lo w.sets
  services : Stock name (shardName name) lo w.services
  ingresses : Stock name (ingressName name) lo w.ingresses
  nodup : (w.sets.map ObjectMeta.name).Nodup
  bound : ∀ x ∈ w.sets, ∀ i, x.name = setName name i → i < hi

namespace Stocked

variable {name : String} {lo hi lo' hi' n : ℕ} {w w' : Cluster}

theorem widen (h : Stocked name lo hi w) (hlo : lo' ≤ lo) (hhi : hi ≤ hi') :
    Stocked name lo' hi' w :=
  ⟨h.sets.mono hlo, h.services.mono hlo, h.ingresses.mono hlo, h.nodup,
    fun x hx i hname => (h.bound x hx i hname).trans_le hhi⟩

theorem of_objects_eq (h : Stocked name lo hi w) (hobj : w'.objects = w.objects) :
    Stocked name lo hi w' := by
  simp only [Cluster.objects, Prod.mk.injEq] at hobj
  obtain ⟨h₁, h₂, h₃⟩ := hobj
  have hsets : w'.sets = w.sets := congrArg (List.map StatefulSet.toObjectMeta) h₁
  exact ⟨hsets ▸ h.sets, h₂ ▸ h.services, h₃ ▸ h.ingresses, hsets ▸ h.nodup, hsets ▸ h.bound⟩

theorem ranked (h : Stocked name lo hi w) : Ranked name (setName name) lo hi w.sets :=
  ⟨h.sets, h.nodup, h.bound⟩

/-- When the bounds meet, the StatefulSets are exactly those of the shards below. -/
theorem length_eq (h : Stocked name n n w) : w.statefulSets.length = n :=
  (List.length_map _).symm.trans (h.ranked.length_eq (setName_injective name))

end Stocked

variable {k : KVStore} {a : Answers} {w : Cluster}

theorem sets_map {f : StatefulSet → StatefulSet} (hf : ∀ x, (f x).toObjectMeta = x.toObjectMeta) :
    ({ w with statefulSets := w.statefulSets.map f } : Cluster).sets = w.sets := by
  unfold Cluster.sets
  rw [List.map_map]
  exact List.map_congr_left fun x _ => hf x

/-! ### The ConfigMap and the status -/

theorem configMap_updateStatus (ok : Bool) : (updateStatus ok k w).configMap = w.configMap := by
  unfold updateStatus
  split <;> rfl

theorem configMap_prepareScale : (prepareScale k a w).1.configMap = w.configMap := by
  rcases prepareScale_cases k a w with ⟨message, heq⟩ | ⟨-, heq⟩ | ⟨-, heq⟩ <;> rw [heq] <;>
    exact configMap_updateStatus _

/-- `PrepareScale` of a store that is not empty keeps the ends of the scale operation. -/
theorem prepareScale_shards (hpos : k.status.currentShards ≠ 0) :
    (prepareScale k a w).1.kvStore = w.kvStore ∨
      (prepareScale k a w).1.kvStore.status.currentShards = k.status.currentShards ∧
        (prepareScale k a w).1.kvStore.status.targetShards = k.status.targetShards := by
  rcases prepareScale_cases k a w with ⟨message, heq⟩ | ⟨hzero, -⟩ | ⟨-, heq⟩
  · rw [heq]
    cases a.updateStatus
    · exact .inl rfl
    · exact .inr ⟨rfl, rfl⟩
  · exact absurd hzero hpos
  · rw [heq]
    cases a.updateStatus
    · exact .inl rfl
    · exact .inr ⟨rfl, rfl⟩

theorem updateConfigMap_eq :
    updateConfigMap k a w = (w, false) ∨
      updateConfigMap k a w = ({ w with configMap := some (kvConfig k.name k.spec.replicas
        k.status.currentShards k.status.targetShards) }, true) := by
  unfold updateConfigMap
  simp only
  split
  · exact .inl rfl
  · split <;> split <;> simp

theorem kvStore_updateConfigMap : (updateConfigMap k a w).1.kvStore = w.kvStore := by
  rcases updateConfigMap_eq (k := k) (a := a) (w := w) with heq | heq <;> rw [heq]

/-- The end of `FinalizeScale` does nothing, or writes the final ConfigMap and goes on to the
status. -/
theorem resumeAfterScale_cases (k : KVStore) (a : Answers) (w : Cluster) :
    resumeAfterScale k a w = w ∨
      resumeAfterScale k a w = updateStatus a.updateStatus
        (k.setPhase .resumingWrites "Starting to resume writes").setCurrent
        { w with configMap := some (kvConfig k.name k.spec.replicas k.status.targetShards
          k.status.targetShards) } := by
  unfold resumeAfterScale
  simp only
  rcases updateConfigMap_eq (a := a) (w := w)
    (k := (k.setPhase .resumingWrites "Starting to resume writes").setCurrent) with heq | heq
  · rw [heq]; exact .inl rfl
  · rw [heq]; exact .inr rfl

/-- The end of `FinalizeScale` moves the phase on or fails. -/
theorem kvStore_resumeAfterScale (k : KVStore) (a : Answers) (w : Cluster) :
    (resumeAfterScale k a w).kvStore = w.kvStore ∨
      (resumeAfterScale k a w).phase = .resumingWrites := by
  rcases resumeAfterScale_cases k a w with heq | heq <;> rw [heq]
  · exact .inl rfl
  · cases a.updateStatus with
    | false => exact .inl rfl
    | true => exact .inr rfl

/-! ### Deleting -/

theorem Swept.map_toObjectMeta {xs ys : List StatefulSet}
    (h : Swept (fun x : StatefulSet => doomed k x.toObjectMeta) xs ys) :
    Swept (doomed k) (xs.map StatefulSet.toObjectMeta) (ys.map StatefulSet.toObjectMeta) := by
  refine ⟨h.sublist.map _, fun x hx hp => ?_⟩
  obtain ⟨y, hy, rfl⟩ := List.mem_map.1 hx
  exact List.mem_map_of_mem (h.kept y hy hp)

theorem Stocked.swept {lo hi : ℕ} {w' : Cluster} (h : Stocked w.kvStore.name lo hi w)
    (hlo : w.kvStore.status.targetShards ≤ lo) (hs : SweptCluster w.kvStore w w') :
    Stocked w.kvStore.name w.kvStore.status.targetShards hi w' := by
  have hsets : Swept (doomed w.kvStore) w.sets w'.sets := hs.statefulSets.map_toObjectMeta
  have hranked := h.ranked.swept (setName_injective _) hsets hlo
  exact ⟨hranked.stock, h.services.swept (shardName_injective _) hs.services hlo,
    h.ingresses.swept (ingressName_injective _) hs.ingresses hlo, hranked.nodup, hranked.bound⟩

/-- Once no object of a doomed group is left, the StatefulSets are those below `TargetShards`. -/
theorem Stocked.trimmed {lo : ℕ} (h : Stocked k.name lo k.status.currentShards w)
    (hdoomed : ∀ x ∈ w.statefulSets, doomed k x.toObjectMeta = false) :
    Stocked k.name lo k.status.targetShards w := by
  have hranked := h.ranked.trimmed (setName_injective _) fun x hx => by
    obtain ⟨y, hy, rfl⟩ := List.mem_map.1 hx
    exact hdoomed y hy
  exact ⟨h.sets, h.services, h.ingresses, h.nodup, hranked.bound⟩

/-! ### Creating -/

/-- The objects that a pass creates: those of consecutive shards from `CurrentShards` on, and
StatefulSets only after all Ingresses and Services. -/
def Grown (k : KVStore) (w w' : Cluster) : Prop :=
  ∃ m₁ m₂ m₃, (m₃ = 0 ∨ m₃ ≤ m₁ ∧ m₃ ≤ m₂) ∧
    w'.ingresses =
      w.ingresses ++ (List.range' k.status.currentShards m₁).map (shardIngress k) ∧
    w'.services = w.services ++ (List.range' k.status.currentShards m₂).map (shardService k) ∧
    w'.statefulSets = w.statefulSets ++ (List.range' k.status.currentShards m₃).map (shard k)

theorem Grown.refl (k : KVStore) (w : Cluster) : Grown k w w :=
  ⟨0, 0, 0, .inl rfl, by simp, by simp, by simp⟩

theorem Grown.of_objects_eq {w' w'' : Cluster} (h : Grown k w' w'')
    (hobj : w'.objects = w.objects) : Grown k w w'' := by
  simp only [Cluster.objects, Prod.mk.injEq] at hobj
  obtain ⟨h₁, h₂, h₃⟩ := hobj
  unfold Grown at h ⊢
  rwa [h₁, h₂, h₃] at h

theorem grown_spinUp : Grown k w (spinUp k a w) := by
  obtain ⟨m₁, -, h₁, hok₁⟩ := createAll_range' ObjectMeta.name (shardIngress k)
    a.createIngress k.status.currentShards
    (k.status.targetShards - k.status.currentShards) w.ingresses
  obtain ⟨m₂, -, h₂, hok₂⟩ := createAll_range' ObjectMeta.name (shardService k)
    a.createService k.status.currentShards
    (k.status.targetShards - k.status.currentShards) w.services
  obtain ⟨m₃, hm₃, h₃, -⟩ := createAll_range' (fun x : StatefulSet => x.name) (shard k)
    a.createShard k.status.currentShards
    (k.status.targetShards - k.status.currentShards) w.statefulSets
  unfold spinUp
  simp only
  split_ifs with hf₁ hf₂
  · exact ⟨m₁, 0, 0, .inl rfl, h₁, by simp [spinUpShardIngresses], by simp [spinUpShardIngresses]⟩
  · exact ⟨m₁, m₂, 0, .inl rfl, h₁, h₂, by simp [spinUpShardIngresses, spinUpShardServices]⟩
  · rw [Bool.not_eq_true, Bool.not_eq_false'] at hf₁ hf₂
    exact ⟨m₁, m₂, m₃, .inr ⟨(hok₁ hf₁).symm ▸ hm₃, (hok₂ hf₂).symm ▸ hm₃⟩, h₁, h₂, h₃⟩

theorem kvStore_spinUp : (spinUp k a w).kvStore = w.kvStore := by
  unfold spinUp
  simp only
  split_ifs <;> rfl

theorem configMap_spinUp : (spinUp k a w).configMap = w.configMap := by
  unfold spinUp
  simp only
  split_ifs <;> rfl

theorem group_shardLabels (hlabels : k.labels.lookup "group" = none) (name : ℕ → String) (i : ℕ) :
    (⟨name i, shardLabels k i⟩ : ObjectMeta).group = shardName k.name i := by
  unfold ObjectMeta.group
  rw [lookup_shardLabels hlabels]; rfl

theorem Ranked.grown {w' : Cluster} {n m : ℕ} (hlabels : k.labels.lookup "group" = none)
    (h : Ranked k.name (setName k.name) n n w.sets)
    (hsets : w'.statefulSets = w.statefulSets ++ (List.range' n m).map (shard k)) :
    Ranked k.name (setName k.name) (n + m) (n + m) w'.sets := by
  have hsets' : w'.sets = w.sets ++ (List.range' n m).map fun i => (shard k i).toObjectMeta := by
    unfold Cluster.sets
    rw [hsets, List.map_append, List.map_map]; rfl
  rw [hsets']
  exact h.append (setName_injective k.name) (fun _ => rfl) (group_shardLabels hlabels _) m

/-- After objects have been created, every StatefulSet still has its Service and its Ingress. -/
theorem Stocked.grown {w' : Cluster} (hlabels : k.labels.lookup "group" = none)
    (h : Stocked k.name k.status.currentShards k.status.currentShards w) (hg : Grown k w w') :
    Stocked k.name w'.statefulSets.length w'.statefulSets.length w' := by
  obtain ⟨m₁, m₂, m₃, hle, h₁, h₂, h₃⟩ := hg
  have hranked := h.ranked.grown hlabels h₃
  have hstock : Stocked k.name (k.status.currentShards + m₃) (k.status.currentShards + m₃) w' := by
    refine ⟨hranked.stock, ?_, ?_, hranked.nodup, hranked.bound⟩
    · rw [h₂]
      refine (h.services.append (fun _ => rfl) (group_shardLabels hlabels _) m₂).mono ?_
      omega
    · rw [h₁]
      refine (h.ingresses.append (fun _ => rfl) (group_shardLabels hlabels _) m₁).mono ?_
      omega
  have hlength := hstock.length_eq
  rw [hlength]
  exact hstock

/-- When every call succeeds and no name is taken, an object is created for every new shard. -/
theorem createAll_newIndices {α : Type} (k : KVStore) (key : α → String) (mk : ℕ → α)
    {ok : ℕ → Bool} {xs : List α} (hinj : Function.Injective (key ∘ mk))
    (h : ∀ i, k.status.currentShards ≤ i → i < k.status.targetShards →
      ok i = true ∧ ∀ x ∈ xs, key x ≠ key (mk i)) :
    createAll key mk ok (newIndices k) xs = (xs ++ (newIndices k).map mk, true) := by
  refine createAll_of_forall _ hinj List.nodup_range' fun i hi => ?_
  have hi' := List.mem_range'_1.1 hi
  obtain ⟨hok, hfree⟩ := h i hi'.1 (by omega)
  refine ⟨hok, fun hmem => ?_⟩
  obtain ⟨x, hx, hkey⟩ := List.mem_map.1 hmem
  exact hfree x hx hkey

theorem grown_scaleUp : Grown w.startScale w (scaleUp a w) := by
  unfold scaleUp
  simp only
  split_ifs
  · exact (Grown.refl _ _).of_objects_eq objects_startScale
  · exact grown_spinUp.of_objects_eq objects_startScale

theorem kvStore_scaleUp :
    (scaleUp a w).kvStore = (updateStatus a.startStatus w.startScale w).kvStore := by
  unfold scaleUp
  simp only
  split_ifs
  · exact kvStore_updateConfigMap
  · exact kvStore_spinUp.trans kvStore_updateConfigMap

end Kvctl

end ShardedKvs
