import ShardedKvs.Kvctl.Prepare
import ShardedKvs.Kvctl.Race

/-!
# The shards that exist are an initial segment

`Reconcile` takes the number of StatefulSets for the number of shards.  That is right when the
StatefulSets are those of the indices `0, ..., n - 1`.  Creation goes through the indices in order
and may stop anywhere; deletion goes through the objects in the order in which they are listed and
may stop anywhere too, but then the persisted phase stays `FinalizingScale`.

* `Segments` : what the status says about the StatefulSets; while a scale-down is under way there
  are exactly `CurrentShards` of them, and fewer only in `FinalizingScale`.
* `segment_of_listed` : **outside `FinalizingScale` the StatefulSets are exactly those of the shards
  `0, ..., n - 1`**, for some `n`, in every reachable state.
-/

namespace ShardedKvs

/-- The phases between the start and the end of a scale operation. -/
def Phase.scaling : Phase → Bool
  | .preparingScale | .stoppingWrites | .redistributingKeys | .finalizingScale => true
  | _ => false

namespace Kvctl

/-- A scale-down is under way. -/
def Shrinking (st : KVStoreStatus) : Prop :=
  st.phase.scaling = true ∧ st.targetShards < st.currentShards

/-- The StatefulSets that fit a status. -/
structure Segments (name : String) (st : KVStoreStatus) (xs : List ObjectMeta) : Prop where
  segment : ¬ Shrinking st → ∃ n, Ranked name (setName name) n n xs
  shrinking : Shrinking st → Ranked name (setName name)
    (if st.phase = .finalizingScale then st.targetShards else st.currentShards)
    st.currentShards xs

/-- The Lists of the passes succeed, and the user never sets the label `group`. -/
def Listed (_ : Racing) : Racing.Label → Prop
  | .finish a => Lists a
  | .change (.edit _ labels) => labels.lookup "group" = none
  | _ => True

namespace Segments

variable {name : String} {st st' : KVStoreStatus} {xs ys : List ObjectMeta} {n : ℕ}

/-- Outside a scale-down any initial segment will do. -/
theorem of_ranked (h : Ranked name (setName name) n n xs) (hst : ¬ Shrinking st) :
    Segments name st xs :=
  ⟨fun _ => ⟨n, h⟩, fun hs => absurd hs hst⟩

theorem of_shrinking (h : Ranked name (setName name) st.currentShards st.currentShards xs)
    (hle : st.targetShards ≤ st.currentShards) : Segments name st xs := by
  refine ⟨fun _ => ⟨_, h⟩, fun _ => h.widen ?_ le_rfl⟩
  split
  · exact hle
  · exact le_rfl

theorem setPhase (h : Segments name st xs) (hp : st.phase.scaling = true)
    (hfin : st.phase ≠ .finalizingScale) (hcur : st'.currentShards = st.currentShards)
    (htar : st'.targetShards = st.targetShards) : Segments name st' xs := by
  by_cases hs : Shrinking st
  · have hranked := h.shrinking hs
    rw [if_neg hfin] at hranked
    exact of_shrinking (hcur ▸ hranked) (hcur ▸ htar ▸ hs.2.le)
  · obtain ⟨n, hn⟩ := h.segment hs
    refine of_ranked hn fun hs' => hs ⟨hp, ?_⟩
    have := hs'.2
    omega

theorem of_eq (h : Segments name st xs) (hphase : st'.phase = st.phase)
    (hcur : st'.currentShards = st.currentShards) (htar : st'.targetShards = st.targetShards) :
    Segments name st' xs := by
  obtain ⟨h₁, h₂⟩ := h
  unfold Shrinking at h₁ h₂
  rw [← hphase, ← hcur, ← htar] at h₁ h₂
  exact ⟨h₁, h₂⟩

theorem perm (h : Segments name st xs) (hp : ys.Perm xs) : Segments name st ys := by
  refine ⟨fun hs => ?_, fun hs => (h.shrinking hs).perm hp⟩
  obtain ⟨n, hn⟩ := h.segment hs
  exact ⟨n, hn.perm hp⟩

end Segments

/-! ### The invariant -/

/-- The invariant of runs whose Lists succeed. -/
structure Segmented (w : Cluster) : Prop where
  labels : w.kvStore.labels.lookup "group" = none
  sound : w.kvStore.Sound
  segments : Segments w.kvStore.name w.kvStore.status w.sets

section Passes

variable {k : KVStore} {a : Answers} {w : Cluster}

theorem sets_of_objects_eq {w' : Cluster} (h : w'.objects = w.objects) : w'.sets = w.sets := by
  unfold Cluster.sets
  rw [Cluster.statefulSets_eq h]

/-- The StatefulSets of a store that no scale-down is under way in. -/
theorem Segmented.ranked (h : Segmented w) (hs : ¬ Shrinking w.kvStore.status) :
    Ranked w.kvStore.name (setName w.kvStore.name) w.statefulSets.length w.statefulSets.length
      w.sets := by
  obtain ⟨n, hn⟩ := h.segments.segment hs
  have hlength := hn.length_eq (setName_injective _)
  unfold Cluster.sets at hlength
  rw [List.length_map] at hlength
  rw [hlength]
  exact hn

theorem not_shrinking_of_normal {st : KVStoreStatus} (h : st.phase = .normal) :
    ¬ Shrinking st := by
  rintro ⟨hp, -⟩
  rw [h] at hp
  cases hp

theorem Segmented.updateStatus (h : Segmented w) (ok : Bool) (hk : k.Sound)
    (hspec : k.spec = w.kvStore.spec) (hs : Segments w.kvStore.name k.status w.sets) :
    Segmented (updateStatus ok k w) := by
  have hsound := h.sound.updateStatus ok hk hspec
  cases ok with
  | false => exact h
  | true => exact ⟨h.labels, hsound, hs⟩

theorem Segmented.setMessage (h : Segmented w) (ok : Bool) (message : String) :
    Segmented (Kvctl.updateStatus ok (w.kvStore.setMessage message) w) :=
  h.updateStatus ok (h.sound.setMessage _) rfl (h.segments.of_eq rfl rfl rfl)

/-- `PrepareScale`, with a copy whose status fits the StatefulSets. -/
theorem Segmented.prepareScale (h : Segmented w) (hk : k.Sound) (hspec : k.spec = w.kvStore.spec)
    (hp : k.status.phase = .preparingScale) (hs : Segments w.kvStore.name k.status w.sets) :
    Segmented (prepareScale k a w).1 := by
  have hne : k.status.phase ≠ .normal := by rw [hp]; decide
  have hscaling : k.status.phase.scaling = true := by rw [hp]; rfl
  rcases prepareScale_cases k a w with ⟨message, heq⟩ | ⟨hzero, heq⟩ | ⟨hzero, heq⟩ <;> rw [heq]
  · exact h.updateStatus _ (hk.setMessage _) hspec (hs.of_eq rfl rfl rfl)
  · -- the first shards of a store: nothing shrinks
    have hnot : ¬ Shrinking k.status := by
      rintro ⟨-, hlt⟩
      omega
    obtain ⟨n, hn⟩ := hs.segment hnot
    exact h.updateStatus _ (hk.setCurrent hne (.inl rfl) _) hspec
      (.of_ranked hn (not_shrinking_of_normal rfl))
  · have hpos := Nat.one_le_iff_ne_zero.2 hzero
    refine h.updateStatus _ (hk.setPhase hne (.inl rfl) hpos (hk.preparing hp) _) hspec
      (hs.setPhase hscaling ?_ rfl rfl)
    rw [hp]; decide

theorem Segmented.stopWrites (h : Segmented w) (hp : w.phase = .stoppingWrites) :
    Segmented (stopWrites w.kvStore a w).1 := by
  have hp' : w.kvStore.status.phase = .stoppingWrites := hp
  obtain ⟨hpos, hmove⟩ := h.sound.moving (.inl hp)
  rcases stopWrites_cases w.kvStore a w with ⟨message, heq⟩ | ⟨-, heq⟩ <;> rw [heq]
  · exact h.setMessage _ _
  · refine h.updateStatus _ (h.sound.setPhase ?_ (.inr (.inl rfl)) hpos hmove _) rfl
      (h.segments.setPhase ?_ ?_ rfl rfl)
    all_goals rw [hp']; decide

theorem Segmented.redistributeKeys (h : Segmented w) (hp : w.phase = .redistributingKeys) :
    Segmented (redistributeKeys w.kvStore a w).1 := by
  have hp' : w.kvStore.status.phase = .redistributingKeys := hp
  obtain ⟨hpos, hmove⟩ := h.sound.moving (.inr (.inl hp))
  rcases redistributeKeys_cases w.kvStore a w with ⟨message, heq⟩ | heq <;> rw [heq]
  · exact h.setMessage _ _
  · refine h.updateStatus _ (h.sound.setPhase ?_ (.inr (.inr rfl)) hpos hmove _) rfl
      (h.segments.setPhase ?_ ?_ rfl rfl)
    all_goals rw [hp']; decide

theorem Segmented.resumeWrites (h : Segmented w) (hp : w.phase = .resumingWrites) :
    Segmented (resumeWrites w.kvStore a w).1 := by
  have hp' : w.kvStore.status.phase = .resumingWrites := hp
  have hne : w.kvStore.status.phase ≠ .normal := by rw [hp']; decide
  rcases resumeWrites_cases w.kvStore a w with ⟨message, heq⟩ | ⟨-, heq⟩ <;> rw [heq]
  · exact h.setMessage _ _
  · have hnot : ¬ Shrinking w.kvStore.status := by
      rintro ⟨hs, -⟩
      rw [hp'] at hs
      cases hs
    exact h.updateStatus _ (h.sound.setCurrent hne (.inl rfl) _) rfl
      (.of_ranked (h.ranked hnot) (not_shrinking_of_normal rfl))

/-- The end of `FinalizeScale`, when an initial segment is left. -/
theorem Segmented.resumeAfterScale {n : ℕ} (h : Segmented w) (hk : w.kvStore = k)
    (hp : w.phase = .finalizingScale) (hn : Ranked k.name (setName k.name) n n w.sets) :
    Segmented (resumeAfterScale k a w) := by
  subst hk
  have hne : w.kvStore.status.phase ≠ .normal := fun hc => nomatch hc.symm.trans hp
  have hk' := h.sound.setCurrent hne (.inr rfl) "Starting to resume writes"
  rcases resumeAfterScale_cases w.kvStore a w with heq | heq <;> rw [heq]
  · exact h
  · have h' : Segmented { w with configMap := some (kvConfig w.kvStore.name
        w.kvStore.spec.replicas w.kvStore.status.targetShards w.kvStore.status.targetShards) } :=
      ⟨h.labels, h.sound, h.segments⟩
    refine h'.updateStatus _ hk' rfl (.of_ranked hn ?_)
    rintro ⟨hs, -⟩
    cases hs

theorem Segmented.finalizeScale (h : Segmented w) (hp : w.phase = .finalizingScale)
    (hlists : Lists a) : Segmented (finalizeScale w.kvStore a w) := by
  have hp' : w.kvStore.status.phase = .finalizingScale := hp
  have hmove := (h.sound.moving (.inr (.inr hp))).2
  unfold Kvctl.finalizeScale
  split_ifs with hup
  · refine h.resumeAfterScale rfl hp (h.ranked ?_)
    rintro ⟨-, hlt⟩
    omega
  · have hs : Shrinking w.kvStore.status := ⟨by rw [hp']; rfl, by omega⟩
    have hranked := h.segments.shrinking hs
    rw [if_pos hp'] at hranked
    -- the deletions may leave holes, but none below `TargetShards`
    have hswept := swept_deleteGroups (k := w.kvStore) (a := a) (w := w)
    have hranked' : Ranked w.kvStore.name (setName w.kvStore.name) w.kvStore.status.targetShards
        w.kvStore.status.currentShards (deleteGroups w.kvStore a w).1.sets :=
      hranked.swept (setName_injective _) hswept.statefulSets.map_toObjectMeta le_rfl
    have h' : Segmented (deleteGroups w.kvStore a w).1 := by
      refine ⟨?_, ?_, ?_⟩ <;> rw [hswept.kvStore]
      · exact h.labels
      · exact h.sound
      · refine ⟨fun hnot => absurd hs hnot, fun _ => ?_⟩
        rw [if_pos hp']
        exact hranked'
    simp only
    split_ifs with hok
    · exact h'
    · rw [Bool.not_eq_true, Bool.not_eq_false'] at hok
      have hgone := (deleteGroups_of_true hlists.getShards hlists.getServices hlists.getIngresses
        hok).1
      refine h'.resumeAfterScale hswept.kvStore ?_ (hranked'.trimmed (setName_injective _) ?_)
      · unfold Cluster.phase
        rw [hswept.kvStore]
        exact hp
      · intro x hx
        obtain ⟨y, hy, rfl⟩ := List.mem_map.1 hx
        exact hgone y hy

theorem Segmented.scaleUp (h : Segmented w) (hp : w.phase = .normal)
    (hlt : w.statefulSets.length < w.kvStore.spec.shards) : Segmented (scaleUp a w) := by
  obtain ⟨m₁, m₂, m₃, -, -, -, hsets⟩ := grown_scaleUp (a := a) (w := w)
  -- the new StatefulSets come right after the old ones, wherever the creation stops
  have hranked := (h.ranked (not_shrinking_of_normal hp)).grown (k := w.startScale) h.labels hsets
  have hkv := kvStore_scaleUp (a := a) (w := w)
  have hsound := sound_scaleUp (a := a) h.sound hlt.ne
  have hlabels : (Kvctl.scaleUp a w).kvStore.labels = w.kvStore.labels ∧
      (Kvctl.scaleUp a w).kvStore.name = w.kvStore.name := by
    rw [hkv]
    cases a.startStatus <;> exact ⟨rfl, rfl⟩
  refine ⟨hlabels.1 ▸ h.labels, hsound, ?_⟩
  rw [hlabels.2]
  refine .of_ranked hranked ?_
  rw [hkv]
  cases a.startStatus with
  | false => exact not_shrinking_of_normal hp
  | true =>
    rintro ⟨-, hlt'⟩
    exact absurd hlt' (not_lt.2 hlt.le)

theorem Segmented.scaleDown (h : Segmented w) (hp : w.phase = .normal)
    (hlt : w.kvStore.spec.shards < w.statefulSets.length) : Segmented (scaleDown a w).1 := by
  have hk := sound_startScale hlt.ne'
  have hs : Segments w.kvStore.name w.startScale.status w.sets :=
    .of_shrinking (h.ranked (not_shrinking_of_normal hp)) hlt.le
  have hstart := h.updateStatus a.startStatus hk rfl hs
  have hspec : (Kvctl.updateStatus a.startStatus w.startScale w).kvStore.spec = w.kvStore.spec ∧
      (Kvctl.updateStatus a.startStatus w.startScale w).kvStore.name = w.kvStore.name := by
    cases a.startStatus <;> exact ⟨rfl, rfl⟩
  unfold Kvctl.scaleDown
  simp only
  rcases updateConfigMap_eq (k := w.startScale) (a := a)
    (w := Kvctl.updateStatus a.startStatus w.startScale w) with heq | heq
  · rw [heq]; exact hstart
  · rw [heq]
    refine Segmented.prepareScale ⟨hstart.labels, hstart.sound, hstart.segments⟩ hk hspec.1.symm
      rfl ?_
    have hsets : (Kvctl.updateStatus a.startStatus w.startScale w).sets = w.sets :=
      sets_of_objects_eq (objects_updateStatus _)
    change Segments (Kvctl.updateStatus a.startStatus w.startScale w).kvStore.name _
      (Kvctl.updateStatus a.startStatus w.startScale w).sets
    rw [hspec.2, hsets]
    exact hs

theorem Segmented.reconcilePhase (h : Segmented w) (hlists : Lists a) :
    Segmented (reconcilePhase a w).1 := by
  unfold Kvctl.reconcilePhase
  cases hp : w.kvStore.status.phase with
  | normal =>
    simp only
    split_ifs with hup hdown
    · exact h.scaleUp hp hup
    · exact h.scaleDown hp hdown
    · exact h
  | preparingScale => exact h.prepareScale h.sound rfl hp h.segments
  | stoppingWrites => exact h.stopWrites hp
  | redistributingKeys => exact h.redistributeKeys hp
  | finalizingScale => exact h.finalizeScale hp hlists
  | resumingWrites => exact h.resumeWrites hp
  | scaleComplete => exact h

theorem Segmented.map (h : Segmented w) {f : StatefulSet → StatefulSet}
    (hf : ∀ x, (f x).toObjectMeta = x.toObjectMeta) :
    Segmented { w with statefulSets := w.statefulSets.map f } := by
  refine ⟨h.labels, h.sound, ?_⟩
  rw [sets_map hf]
  exact h.segments

theorem Segmented.reconcile (h : Segmented w) (hlists : Lists a) :
    Segmented (reconcile a w).1 := by
  rcases reconcile_cases a w with ⟨f, hf, heq⟩ | ⟨-, -, heq⟩ <;> rw [heq]
  · exact h.map hf
  · exact h.reconcilePhase hlists

/-! ### Passes whose status updates are rejected -/

/-- A pass from `Normal` whose status updates are rejected leaves the stored object alone. -/
theorem kvStore_reconcile_rejected (hp : w.phase = .normal) (hstart : a.startStatus = false)
    (hupdate : a.updateStatus = false) : (Kvctl.reconcile a w).1.kvStore = w.kvStore := by
  have hp' : w.kvStore.status.phase = .normal := hp
  have hdown : (Kvctl.scaleDown a w).1.kvStore = w.kvStore := by
    unfold Kvctl.scaleDown Kvctl.prepareScale
    simp only [hstart, hupdate, Kvctl.updateStatus, Bool.false_eq_true, if_false]
    split_ifs <;> exact kvStore_updateConfigMap
  have hup : (Kvctl.scaleUp a w).kvStore = w.kvStore := by
    rw [kvStore_scaleUp, hstart]; rfl
  rcases reconcile_cases a w with ⟨f, -, heq⟩ | ⟨-, -, heq⟩ <;> rw [heq]
  -- bringing replicas up to date leaves the object alone
  · unfold Kvctl.reconcilePhase
    rw [hp']
    simp only
    split_ifs
    · exact hup
    · exact hdown
    · rfl

/-- What a pass with a stale copy leaves behind is an initial segment too. -/
theorem Segmented.finish {rd : Reading} (h : Segmented w) (hfits : rd.Fits w)
    (hlabels : rd.kvStore.labels.lookup "group" = none) (hlists : Lists a) :
    Segmented (rd.finish a w) := by
  rcases hfits.finish_eq a with ⟨hstale, heq⟩ | ⟨-, heq⟩ <;> rw [heq]
  · have hp : rd.kvStore.status.phase = .normal := by
      rw [hfits.status]
      exact hfits.normal hstale
    have hview : Segmented (rd.view w) := by
      refine ⟨hlabels, ⟨⟨?_, fun hne => absurd hp hne, ?_, ?_⟩, ?_⟩, ?_⟩
      all_goals simp only [Reading.view, hp]
      any_goals simp
      rw [hfits.name, hfits.status]
      exact h.segments
    have hlists' : Lists (rd.answers a) :=
      ⟨hlists.listShards, hlists.getShards, hlists.getServices, hlists.getIngresses⟩
    have hrec := hview.reconcile hlists'
    have hkv := kvStore_reconcile_rejected (w := rd.view w) (a := rd.answers a) hp
      (by simp [Reading.answers, hstale]) (by simp [Reading.answers, hstale])
    refine ⟨h.labels, h.sound, ?_⟩
    have hsegments := hrec.segments
    rw [hkv] at hsegments
    simp only [Reading.view, hfits.name, hfits.status] at hsegments
    exact hsegments
  · exact h.reconcile hlists

end Passes

/-! ### Runs -/

/-- The invariant of runs, with a pass under way. -/
structure SegmentInv (s : Racing) : Prop where
  coherent : s.Coherent
  cluster : Segmented s.cluster
  labels : ∀ rd, s.reading = some rd → rd.kvStore.labels.lookup "group" = none

theorem SegmentInv.next {s s' : Racing} {l : Racing.Label} (h : SegmentInv s) (hl : Listed s l)
    (hst : s.next l = some s') : SegmentInv s' := by
  have hcoherent := h.coherent.next hst
  have hsound := h.coherent.sound_next h.cluster.sound hst
  rcases Racing.next_cases hst with ⟨rfl, rfl⟩ | ⟨a, rd, rfl, hrd, rfl⟩ |
    ⟨spec, labels, rfl, -, rfl⟩ | ⟨x, n, rfl, rfl⟩ | ⟨xs, ys, zs, rfl, hperm, -, -, rfl⟩
  · refine ⟨hcoherent, h.cluster, fun rd hrd => ?_⟩
    cases hrd
    exact h.cluster.labels
  · exact ⟨hcoherent, h.cluster.finish (h.coherent rd hrd) (h.labels rd hrd) hl,
      fun _ hnone => absurd hnone (by simp)⟩
  · refine ⟨hcoherent, ⟨hl, hsound, h.cluster.segments⟩, fun rd hrd => ?_⟩
    obtain ⟨rd', hrd', rfl⟩ := Option.map_eq_some_iff.1 hrd
    exact h.labels rd' hrd'
  · refine ⟨hcoherent, h.cluster.map fun y => ?_, h.labels⟩
    split_ifs <;> rfl
  · exact ⟨hcoherent, ⟨h.cluster.labels, hsound, h.cluster.segments.perm (hperm.map _)⟩, h.labels⟩

theorem segmentInv_created (name : String) {labels : Labels} (spec : KVStoreSpec)
    (hlabels : labels.lookup "group" = none) : SegmentInv (Racing.created name labels spec) := by
  refine ⟨nofun, ⟨hlabels, ⟨⟨nofun, fun hne => absurd rfl hne, ?_, nofun⟩, nofun⟩, ?_⟩, nofun⟩
  · simp [Racing.created, created]
  · exact .of_ranked (Ranked.nil _ _) (not_shrinking_of_normal rfl)

/-- **The shards that exist are an initial segment.**  For every run from the creation of a
`KVStore` object with labels that never set `group`, with any failing Creates, Deletes, ConfigMap
and status updates and any admitted edits, also while a `Reconcile` is under way: if the Lists
succeed, then outside `FinalizingScale` the StatefulSets are exactly those of the shards
`0, ..., n - 1`, and their number is `n`. -/
theorem segment_of_listed (name : String) (labels : Labels) (spec : KVStoreSpec)
    (hlabels : labels.lookup "group" = none) (s : Racing)
    (h : Racing.machine.ReachedBy Listed (Racing.created name labels spec) s)
    (hp : s.cluster.phase ≠ .finalizingScale) :
    ∃ n, (s.cluster.statefulSets.map fun x => x.name).Perm
        ((List.range n).map (setName s.cluster.kvStore.name)) ∧
      s.cluster.statefulSets.length = n := by
  have hinv := h.invariant (I := SegmentInv) (segmentInv_created name spec hlabels)
    fun s l s' hi hl hst => hi.next hl hst
  obtain ⟨n, hn⟩ : ∃ n, Ranked s.cluster.kvStore.name (setName s.cluster.kvStore.name) n n
      s.cluster.sets := by
    by_cases hs : Shrinking s.cluster.kvStore.status
    · have hranked := hinv.cluster.segments.shrinking hs
      have hp' : s.cluster.kvStore.status.phase ≠ .finalizingScale := hp
      rw [if_neg hp'] at hranked
      exact ⟨_, hranked⟩
    · exact hinv.cluster.segments.segment hs
  have hnames := hn.names_perm (setName_injective _)
  rw [Cluster.sets, List.map_map] at hnames
  refine ⟨n, hnames, ?_⟩
  have hlength := hnames.length_eq
  rwa [List.length_map, List.length_map, List.length_range] at hlength

/-- A store with two shards shrinks to one, and the deletion fails at first. -/
theorem segment_of_listed_shrink :
    ∃ s, Racing.machine.ReachedBy Listed (Racing.created "kv" ∅ ⟨2, 1⟩) s ∧
      s.cluster.phase = .resumingWrites ∧
      ∃ n, (s.cluster.statefulSets.map fun x => x.name).Perm
          ((List.range n).map (setName s.cluster.kvStore.name)) ∧
        s.cluster.statefulSets.length = n := by
  have hok : Lists .ok := ⟨rfl, rfl, rfl, rfl⟩
  obtain ⟨s, hs, hp⟩ : ∃ s, Racing.machine.ReachedBy Listed (Racing.created "kv" ∅ ⟨2, 1⟩) s ∧
      s.cluster.phase = .resumingWrites :=
    ⟨_, .head (l := .get) trivial rfl <| .head (l := .finish .ok) hok rfl <|
      .head (l := .change (.ready "kv-shard-0-replica" 1)) trivial rfl <|
      .head (l := .change (.ready "kv-shard-1-replica" 1)) trivial rfl <|
      .head (l := .get) trivial rfl <| .head (l := .finish .ok) hok rfl <|
      .head (l := .change (.edit ⟨1, 1⟩ ∅)) (Finmap.lookup_empty _) rfl <|
      .head (l := .get) trivial rfl <| .head (l := .finish .ok) hok rfl <|
      .head (l := .get) trivial rfl <| .head (l := .finish .ok) hok rfl <|
      .head (l := .get) trivial rfl <| .head (l := .finish .ok) hok rfl <|
      .head (l := .get) trivial rfl <|
      .head (l := .finish { Answers.ok with deleteShard := fun _ => false }) ⟨rfl, rfl, rfl, rfl⟩
        rfl <|
      .head (l := .get) trivial rfl <| .head (l := .finish .ok) hok rfl .start, rfl⟩
  exact ⟨s, hs, hp, segment_of_listed "kv" ∅ ⟨2, 1⟩ (Finmap.lookup_empty _) s hs
    (by rw [hp]; decide)⟩

end Kvctl

end ShardedKvs
