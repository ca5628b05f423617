import Mathlib.Data.Finset.Union
import ShardedKvs.Machine.Rank
import ShardedKvs.Replica.Reads
import ShardedKvs.Replica.Workers

/-!
# What the goroutines achieve

A goroutine ranges over the map of its own process, which may lag behind.  When its replica is up to
date at the moment the range begins, it cannot miss a key that has to leave: its own map loses such
a key only after the deletion has been committed, and the key does not come back.

* `Workers.Begins` : every range begins on a current replica.
* `Workers.Kept` : what is committed, or may still be, are keys with their values on the way.
* `Workers.moved_of_swept` : once one goroutine has gone through the keys of a shard without an
  error, **every current replica of the shard counts 0 from then on**, and when this is so for every
  shard, every key is at its new owner, with its value, and nowhere else.
* `Workers.comes_to_rest` : **every goroutine ends** after a number of steps that is bounded by the
  number of keys, whatever fails; the goroutines never wait for each other for ever.
-/

namespace ShardedKvs

namespace Workers

variable {Shard Replica : Type*} {S : Scale Shard Replica} {d : Replicas Shard Replica}
  {c c' : Calls Shard Replica} {x y : Shard} {e : KVFSMLogEntry} {k : String}

/-! ### Keys on the way -/

variable (S) in
/-- The key has to leave the shard. -/
def Leaves (x : Shard) (k : String) : Prop := S.old k = x ∧ S.new k ≠ x

variable (S d) in
/-- The value of the key at the start. -/
def content (k : String) : Option String := (d.committed (S.old k)).lookup k

variable (S d) in
/-- The entry carries a key from its old to its new owner, with its value at the start. -/
def Moves (x : Shard) (e : KVFSMLogEntry) : Prop :=
  (∃ k v, e = .set k v ∧ x = S.new k ∧ S.old k ≠ S.new k ∧ content S d k = some v) ∨
    ∃ k, e = .delete k ∧ x = S.old k ∧ S.old k ≠ S.new k

variable (S d) in
/-- The new owner has committed the key. -/
def Arrived (c : Calls Shard Replica) (k : String) : Prop :=
  (c.committed (S.new k)).lookup k = content S d k

/-- A key that has to leave a shard is only deleted there. -/
theorem Moves.pickKey_leaves (h : Moves S d x e) (hk : Leaves S x k) {w : Option String}
    (hp : e.pickKey k = some w) : w = none := by
  rcases h with ⟨k', v, rfl, hx, -⟩ | ⟨k', rfl, -⟩
  · rw [KVFSMLogEntry.pickKey_set] at hp
    split_ifs at hp with hkk
    exact absurd (hkk ▸ hx.symm) hk.2
  · rw [KVFSMLogEntry.pickKey_delete] at hp
    split_ifs at hp
    exact (Option.some.inj hp).symm

/-- A key that has a new owner is only set there, to the value that it has. -/
theorem Moves.pickKey_new (h : Moves S d (S.new k) e) {w : Option String}
    (hp : e.pickKey k = some w) : w = content S d k := by
  rcases h with ⟨k', v, rfl, -, -, hv⟩ | ⟨k', rfl, hx, hne⟩
  · rw [KVFSMLogEntry.pickKey_set] at hp
    split_ifs at hp with hkk
    subst hkk
    rw [hv]
    exact (Option.some.inj hp).symm
  · rw [KVFSMLogEntry.pickKey_delete] at hp
    split_ifs at hp with hkk
    subst hkk
    exact absurd hx.symm hne

/-- Nothing is committed for the other keys of a shard. -/
theorem Moves.pickKey_other (h : Moves S d x e)
    (hk : S.old k = S.new k ∨ x ≠ S.old k ∧ x ≠ S.new k) : e.pickKey k = none := by
  rcases h with ⟨k', v, rfl, hx, hne, -⟩ | ⟨k', rfl, hx, hne⟩
  · rw [KVFSMLogEntry.pickKey_set, if_neg]
    rintro rfl
    exact hk.elim hne fun hk => hk.2 hx
  · rw [KVFSMLogEntry.pickKey_delete, if_neg]
    rintro rfl
    exact hk.elim hne fun hk => hk.1 hx

/-- Along entries that carry keys, a key that has to leave keeps its value until it is gone. -/
theorem lookup_leaves {log es : List KVFSMLogEntry} (hes : ∀ e ∈ es, Moves S d x e)
    (hk : Leaves S x k) :
    (storeOf (log ++ es)).lookup k = (storeOf log).lookup k ∨
      (storeOf (log ++ es)).lookup k = none := by
  rw [lookup_storeOf, lookup_storeOf, latest_append]
  refine (latest_eq_or_exists (KVFSMLogEntry.pickKey k) _ es).imp_right ?_
  rintro ⟨e, he, hp⟩
  exact (hes e he).pickKey_leaves hk hp

/-- What is committed, or may still be: keys on the way, and deletions of keys that have arrived. -/
structure Kept (S : Scale Shard Replica) (d : Replicas Shard Replica) (c : Calls Shard Replica) :
    Prop where
  log : ∀ x, ∃ es, c.log x = d.log x ++ es ∧ ∀ e ∈ es, Moves S d x e
  late : ∀ x e, (x, e) ∈ c.late → Moves S d x e
  arrived : ∀ k, S.old k ≠ S.new k → (c.committed (S.old k)).lookup k = none → Arrived S d c k
  purged : ∀ x k, (x, .delete k) ∈ c.late → Arrived S d c k

/-- What stays true of the logs: keys that have arrived are there, and keys that have left are
gone. -/
structure Later (S : Scale Shard Replica) (d : Replicas Shard Replica)
    (c c' : Calls Shard Replica) : Prop where
  arrived : ∀ k, Arrived S d c k → Arrived S d c' k
  absent : ∀ x k, Leaves S x k → (c.committed x).lookup k = none → (c'.committed x).lookup k = none

theorem later_of_log_eq (h : c'.log = c.log) : Later S d c c' := by
  have hcommitted : c'.committed = c.committed := by
    funext x
    rw [Replicas.committed, h]
    rfl
  refine ⟨fun k hk => ?_, fun x k _ hk => ?_⟩
  · rw [Arrived, hcommitted]
    exact hk
  · rw [hcommitted]
    exact hk

theorem Kept.of_log_eq (h : Kept S d c) (hlog : c'.log = c.log) (hlate : c'.late = c.late) :
    Kept S d c' := by
  have hcommitted : c'.committed = c.committed := by
    funext x
    rw [Replicas.committed, hlog]
    rfl
  refine ⟨?_, ?_, fun k hne hk => ?_, fun x k hk => ?_⟩
  · rw [hlog]; exact h.log
  · rw [hlate]; exact h.late
  · rw [hcommitted] at hk
    exact (later_of_log_eq hlog).arrived k (h.arrived k hne hk)
  · rw [hlate] at hk
    exact (later_of_log_eq hlog).arrived k (h.purged x k hk)

theorem kept_start (hplaced : ∀ x k, (d.committed x).lookup k ≠ none → x = S.old k) :
    Kept S d ⟨d, []⟩ := by
  refine ⟨fun x => ⟨[], (List.append_nil _).symm, fun e he => absurd he List.not_mem_nil⟩,
    fun _ _ hp => absurd hp List.not_mem_nil, fun k hne hk => ?_,
    fun _ _ hp => absurd hp List.not_mem_nil⟩
  have hnew : (d.committed (S.new k)).lookup k = none := by
    by_contra hk'
    exact hne (hplaced _ k hk').symm
  exact hnew.trans hk.symm

section Logs

variable [DecidableEq Shard]

theorem later_append (hm : Moves S d y e) :
    Later S d c { c with toReplicas := c.toReplicas.append y e } := by
  refine ⟨fun k hk => ?_, fun x k hleaves hk => ?_⟩
  · unfold Arrived
    rw [Replicas.lookup_committed_append]
    split_ifs with hxy
    · subst hxy
      cases hp : e.pickKey k with
      | none => exact hk
      | some w => exact hm.pickKey_new hp
    · exact hk
  · rw [Replicas.lookup_committed_append]
    split_ifs with hxy
    · subst hxy
      cases hp : e.pickKey k with
      | none => exact hk
      | some w => exact hm.pickKey_leaves hleaves hp
    · exact hk

theorem later_deliver (hm : Moves S d y e) (out : Outcome) : Later S d c (c.deliver out y e) := by
  cases out with
  | ok => exact later_append hm
  | failed | lost => exact later_of_log_eq rfl

/-- An entry is committed that carries a key; a deletion only when the key has arrived. -/
theorem Kept.append (h : Kept S d c) (hm : Moves S d y e)
    (hdel : ∀ k, e = .delete k → Arrived S d c k) :
    Kept S d { c with toReplicas := c.toReplicas.append y e } := by
  have hlater := later_append (c := c) hm
  refine ⟨fun x => ?_, h.late, fun k hne hk => ?_, fun x k hk => hlater.arrived k (h.purged x k hk)⟩
  · obtain ⟨es, hes, hmoves⟩ := h.log x
    show ∃ es, (c.toReplicas.append y e).log x = _ ∧ _
    rw [Replicas.log_append]
    split_ifs with hxy
    · subst hxy
      refine ⟨es ++ [e], by rw [hes, List.append_assoc], fun e' he' => ?_⟩
      rcases List.mem_append.1 he' with he' | he'
      · exact hmoves e' he'
      · rw [List.mem_singleton.1 he']
        exact hm
    · exact ⟨es, hes, hmoves⟩
  · apply hlater.arrived
    rw [Replicas.lookup_committed_append] at hk
    split_ifs at hk with hxy
    · cases hp : e.pickKey k with
      | none =>
        rw [hp] at hk
        exact h.arrived k hne hk
      | some w =>
        -- only a deletion leaves nothing behind
        rw [hp] at hk
        rcases hm with ⟨k', v, rfl, -⟩ | ⟨k', rfl, -⟩
        · rw [KVFSMLogEntry.pickKey_set] at hp
          split_ifs at hp
          cases hp
          cases hk
        · rw [KVFSMLogEntry.pickKey_delete] at hp
          split_ifs at hp with hkk
          exact hdel k (hkk ▸ rfl)
    · exact h.arrived k hne hk

theorem Kept.deliver (h : Kept S d c) (hm : Moves S d y e)
    (hdel : ∀ k, e = .delete k → Arrived S d c k) (out : Outcome) :
    Kept S d (c.deliver out y e) := by
  cases out with
  | ok => exact h.append hm hdel
  | failed => exact h
  | lost =>
    refine ⟨h.log, fun x e' hp => ?_, h.arrived, fun x k hp => ?_⟩
    · rcases List.mem_append.1 hp with hp | hp
      · exact h.late x e' hp
      · cases List.mem_singleton.1 hp
        exact hm
    · rcases List.mem_append.1 hp with hp | hp
      · exact h.purged x k hp
      · cases List.mem_singleton.1 hp
        exact hdel k rfl

theorem Kept.settle (h : Kept S d c) {i : ℕ} (hst : c.settle i = some c') :
    Kept S d c' ∧ Later S d c c' := by
  obtain ⟨⟨y, e⟩, hp, rfl⟩ := Calls.settle_eq_some hst
  have hmem := List.mem_of_getElem? hp
  have hm := h.late y e hmem
  have happend := h.append hm fun k hk => h.purged y k (hk ▸ hmem)
  refine ⟨⟨happend.log, fun x e' he' => h.late x e' (List.mem_of_mem_eraseIdx he'), happend.arrived,
    fun x k hk => happend.purged x k (List.mem_of_mem_eraseIdx hk)⟩, ?_⟩
  have hlater := later_append (c := c) hm
  exact ⟨hlater.arrived, hlater.absent⟩

end Logs

/-! ### Processes that have seen the start -/

variable (S d) in
/-- The process reads a prefix of the log of its shard that includes what was there at the start. -/
def Seasoned (c : Replicas Shard Replica) (r : Replica) : Prop :=
  ∃ i, c.Serves S.home r i ∧ (d.log (S.home r)).length ≤ i

theorem Seasoned.of_current (hreplays : c.Replays S.home) {r : Replica}
    (hcur : c.Current S.home r) (h : Kept S d c) : Seasoned S d c.toReplicas r := by
  obtain ⟨hshared, hle, hstore⟩ := hreplays r hcur.unrestored
  refine ⟨_, .live hshared rfl hle hstore, ?_⟩
  obtain ⟨es, hes, -⟩ := h.log (S.home r)
  rw [hcur.applied, hes, List.length_append]
  exact Nat.le_add_right _ _

section Steps

variable [DecidableEq Shard] [DecidableEq Replica] {r q : Replica}

omit [DecidableEq Replica] in
theorem Seasoned.deliver (h : Seasoned S d c.toReplicas r) (out : Outcome) (y : Shard)
    (e : KVFSMLogEntry) : Seasoned S d (c.deliver out y e).toReplicas r := by
  obtain ⟨i, hi, hle⟩ := h
  refine ⟨i, ?_, hle⟩
  cases out with
  | ok => exact hi.append y e
  | failed | lost => exact hi

omit [DecidableEq Shard] in
theorem Seasoned.apply {d₁ d₂ : Replicas Shard Replica} (h : Seasoned S d d₁ r)
    (hst : d₁.apply S.home q = some d₂) : Seasoned S d d₂ r := by
  obtain ⟨i, hi, hle⟩ := h
  by_cases hrq : r = q
  · subst hrq
    refine ⟨_, hi.apply hst, ?_⟩
    split_ifs with hr
    · refine hle.trans ?_
      rw [hi.eq_applied hr]
      exact Replicas.applied_le_apply hst
    · exact hle
  · exact ⟨i, hi.apply_of_ne hrq hst, hle⟩

omit [DecidableEq Shard] in
theorem Seasoned.restore {d₁ : Replicas Shard Replica} (h : Seasoned S d d₁ r)
    (snap : KVFSMSnapshot) (index : ℕ) : Seasoned S d (d₁.restore q snap index) r := by
  obtain ⟨i, hi, hle⟩ := h
  by_cases hrq : r = q
  · subst hrq
    exact ⟨i, hi.restore snap index, hle⟩
  · exact ⟨i, hi.setNode_of_ne hrq, hle⟩

end Steps

/-- The map of a process that has seen the start has, for a key that has to leave, the value of the
key or nothing; and when it has nothing, the key is gone. -/
theorem Kept.own (h : Kept S d c) {r : Replica} (hs : Seasoned S d c.toReplicas r)
    (hk : Leaves S (S.home r) k) :
    (((c.node r).heap.read (c.node r).kvStore.store).lookup k = content S d k ∨
      ((c.node r).heap.read (c.node r).kvStore.store).lookup k = none) ∧
    (((c.node r).heap.read (c.node r).kvStore.store).lookup k = none →
      (c.committed (S.home r)).lookup k = none) := by
  obtain ⟨i, hi, hle⟩ := hs
  obtain ⟨es, hes, hmoves⟩ := h.log (S.home r)
  have htake : (c.log (S.home r)).take i = d.log (S.home r) ++
      es.take (i - (d.log (S.home r)).length) := by
    rw [hes, List.take_append, List.take_of_length_le hle]
  have hdrop : ∀ e ∈ (c.log (S.home r)).drop i, Moves S d (S.home r) e := by
    intro e he
    rw [hes, List.drop_append, List.drop_of_length_le hle, List.nil_append] at he
    exact hmoves e (List.mem_of_mem_drop he)
  rw [hi.read]
  constructor
  · rw [htake, content, hk.1]
    exact lookup_leaves (fun e he => hmoves e (List.mem_of_mem_take he)) hk
  · intro hnone
    have hlookup : (storeOf ((c.log (S.home r)).take i ++ (c.log (S.home r)).drop i)).lookup k =
      _ ∨ _ := lookup_leaves hdrop hk
    rw [List.take_append_drop, hnone, or_self] at hlookup
    exact hlookup

/-! ### What a goroutine knows of the keys -/

variable (S) in
/-- What a range knows of the committed store `m` of its shard `x`: the keys that have to leave and
are still there were there at the start, and without an error those it has seen are gone, apart
from the one it is moving now. -/
structure Covers (x : Shard) (m : Contents) (moving : Option String) (a : Scan) : Prop where
  left : ∀ k, Leaves S x k → m.lookup k ≠ none → k ∈ a.due
  seen : a.clean = true → ∀ k ∈ a.seen, some k ≠ moving → Leaves S x k → m.lookup k = none

variable (S d) in
/-- What the goroutine of `r` knows. -/
def Knows (c : Calls Shard Replica) (r : Replica) : Sweep → Prop
  | .config => True
  | .scan a => Seasoned S d c.toReplicas r ∧ Covers S (S.home r) (c.committed (S.home r)) none a
  | .got a k v => Seasoned S d c.toReplicas r ∧
      Covers S (S.home r) (c.committed (S.home r)) (some k) a ∧ Leaves S (S.home r) k ∧
      content S d k = some v
  | .sent a k => Seasoned S d c.toReplicas r ∧
      Covers S (S.home r) (c.committed (S.home r)) (some k) a ∧ Leaves S (S.home r) k ∧
      Arrived S d c k

theorem Covers.later {moving : Option String} {a : Scan}
    (h : Covers S x (c.committed x) moving a) (hl : Later S d c c') :
    Covers S x (c'.committed x) moving a :=
  ⟨fun k hk hget => h.left k hk (mt (hl.absent x k hk) hget),
    fun hclean k hseen hne hk => hl.absent x k hk (h.seen hclean k hseen hne hk)⟩

theorem Knows.later {r : Replica} {b : Sweep} (h : Knows S d c r b) (hl : Later S d c c')
    (hs : Seasoned S d c.toReplicas r → Seasoned S d c'.toReplicas r) : Knows S d c' r b := by
  cases b with
  | config => trivial
  | scan a => exact ⟨hs h.1, h.2.later hl⟩
  | got a k v => exact ⟨hs h.1, h.2.1.later hl, h.2.2⟩
  | sent a k => exact ⟨hs h.1, h.2.1.later hl, h.2.2.1, hl.arrived k h.2.2.2⟩

/-- After an error nothing is known of the keys that have been seen. -/
theorem Covers.note {m : Contents} {a : Scan} {out : Outcome} (h : Covers S x m (some k) a)
    (hk : out = .ok → m.lookup k = none) : Covers S x m none (a.note out) := by
  refine ⟨h.left, fun hclean k' hseen _ hleaves => ?_⟩
  simp only [Scan.note, Bool.and_eq_true, decide_eq_true_eq] at hclean
  by_cases hkk : k' = k
  · subst hkk
    exact hk hclean.2
  · exact h.seen hclean.1 k' hseen (by simpa using hkk) hleaves

theorem Covers.visit {m : Contents} {a : Scan} {moving : Option String} (h : Covers S x m none a)
    (hk : some k ≠ moving → Leaves S x k → m.lookup k = none) :
    Covers S x m moving (a.visit k) := by
  refine ⟨h.left, fun hclean k' hseen hne hleaves => ?_⟩
  rcases Finset.mem_insert.1 hseen with rfl | hseen
  · exact hk hne hleaves
  · exact h.seen hclean k' hseen (by simp) hleaves

theorem mem_keys_iff {m : Contents} {k : String} : k ∈ m.keys ↔ m.lookup k ≠ none := by
  rw [Finmap.mem_keys, ← Finmap.lookup_isSome, Option.isSome_iff_ne_none]

/-- A range that is over, and had no error, has left no key behind. -/
theorem Covers.cleared {a : Scan} {r : Replica}
    (h : Covers S (S.home r) (c.committed (S.home r)) none a) (hkept : Kept S d c)
    (hs : Seasoned S d c.toReplicas r) (hclean : a.clean = true)
    (hover : ∀ k ∈ a.due, k ∉ a.seen → k ∉ (c.node r).keys) (hk : Leaves S (S.home r) k) :
    (c.committed (S.home r)).lookup k = none := by
  by_contra hget
  have hseen : k ∈ a.seen := by
    by_contra hseen
    -- the range has left the key out, so it is gone from the map of the process
    have hown := hover k (h.left k hk hget) hseen
    rw [Node.keys, mem_keys_iff, not_not] at hown
    exact hget ((hkept.own hs hk).2 hown)
  exact hget (h.seen hclean k hseen (by simp) hk)

section Steps

variable [DecidableEq Shard] [DecidableEq Replica] {x x' : Stores Shard Replica} {r : Replica}
  {b : Sweep} {l : SweepLabel} {b' : Option Sweep}

omit [DecidableEq Replica] in
theorem leaves_of_mustMove (h : S.mustMove S.old r k = true) : Leaves S (S.home r) k := by
  simp only [Scale.mustMove, decide_eq_true_eq] at h
  exact ⟨h.2, fun hn => h.1 (h.2.trans hn.symm)⟩

omit [DecidableEq Replica] in
/-- The range produces a key: the goroutine holds it with its value, or the key is gone or has
nowhere to go. -/
theorem Knows.take (hkept : Kept S d x.toCalls) {a : Scan} (h : Knows S d x.toCalls r (.scan a))
    (k : String) : Knows S d x.toCalls r (a.take S x r k) := by
  obtain ⟨hs, hc⟩ := h
  unfold Scan.take
  split_ifs with hmust
  · have hk := leaves_of_mustMove hmust
    obtain ⟨hvalue, hgone⟩ := hkept.own hs hk
    split
    · rename_i v hget
      have hown := answer_eq_ok_iff.1 hget
      refine ⟨hs, hc.visit fun hne => absurd rfl hne, hk, ?_⟩
      rcases hvalue with hvalue | hvalue
      · exact hvalue.symm.trans hown
      · cases hvalue.symm.trans hown
    · rename_i err hget
      refine ⟨hs, hc.visit fun _ _ => hgone ?_⟩
      rw [Node.get] at hget
      split at hget
      · cases hget
      · assumption
  · refine ⟨hs, hc.visit fun _ hleaves => absurd ?_ hmust⟩
    simp only [Scale.mustMove, decide_eq_true_eq]
    exact ⟨fun hn => hleaves.2 (hn.symm.trans hleaves.1), hleaves.1⟩

/-- **The step of a goroutine** keeps what is known of the logs, and the goroutine knows where it is
going. -/
theorem Knows.step (hkept : Kept S d x.toCalls) (hreplays : x.Replays S.home)
    (h : Knows S d x.toCalls r b)
    (hcur : ∀ hasNewShards, l = .config hasNewShards → x.Current S.home r)
    (hst : (redistributeKeys S).step r x b l = some (x', b')) :
    Kept S d x'.toCalls ∧ Later S d x.toCalls x'.toCalls ∧
      (∀ q, Seasoned S d x.toReplicas q → Seasoned S d x'.toReplicas q) ∧
      ∀ b₁, b' = some b₁ → Knows S d x'.toCalls r b₁ := by
  have hsame : Later S d x.toCalls x.toCalls := later_of_log_eq rfl
  rcases step_cases hst with ⟨hasNewShards, rfl, rfl, rfl, rfl⟩ | ⟨a, k, rfl, -, rfl, rfl⟩ |
    ⟨a, k, v, out, rfl, rfl, rfl⟩ | ⟨a, k, out, rfl, rfl, rfl⟩ | ⟨a, rfl, -, rfl, rfl⟩
  · -- the range begins on a current replica, whose map is the committed one
    refine ⟨hkept, hsame, fun _ => id, fun b₁ hb₁ => ?_⟩
    have hc := hcur hasNewShards rfl
    cases hasNewShards <;> cases hb₁
    refine ⟨.of_current hreplays hc hkept, fun k _ hget => ?_, fun _ k hk => ?_⟩
    · show k ∈ (x'.node r).keys
      rw [hreplays.keys_current hc]
      exact mem_keys_iff.2 hget
    · exact absurd hk (Finset.notMem_empty k)
  · refine ⟨hkept, hsame, fun _ => id, fun b₁ hb₁ => ?_⟩
    cases hb₁
    exact h.take hkept k
  · obtain ⟨hs, hc, hk, hv⟩ := h
    have hne : S.old k ≠ S.new k := fun he => hk.2 (he.symm.trans hk.1)
    have hm : Moves S d (S.new k) (.set k v) := .inl ⟨k, v, rfl, rfl, hne, hv⟩
    have hl := later_deliver (c := x.toCalls) hm out
    refine ⟨hkept.deliver hm (fun _ he => absurd (congrArg KVFSMLogEntry.operation he)
      (by simp [KVFSMLogEntry.set, KVFSMLogEntry.delete, SET, DELETE])) out, hl,
      fun q hq => hq.deliver out _ _, fun b₁ hb₁ => ?_⟩
    cases hb₁
    have hs' : Seasoned S d (x.toCalls.deliver out (S.new k) (.set k v)).toReplicas r :=
      hs.deliver out _ _
    split_ifs with hok
    · subst hok
      refine ⟨hs', hc.later hl, hk, ?_⟩
      show ((x.toReplicas.append (S.new k) (.set k v)).committed (S.new k)).lookup k = _
      rw [Replicas.lookup_committed_append, if_pos rfl, KVFSMLogEntry.pickKey_set, if_pos rfl, hv]
      rfl
    · exact ⟨hs', (hc.later hl).note fun he => absurd he hok⟩
  · obtain ⟨hs, hc, hk, ha⟩ := h
    have hne : S.old k ≠ S.new k := fun he => hk.2 (he.symm.trans hk.1)
    have hm : Moves S d (S.home r) (.delete k) := .inr ⟨k, rfl, hk.1.symm, hne⟩
    have hl := later_deliver (c := x.toCalls) hm out
    refine ⟨hkept.deliver hm (fun k' he => ?_) out, hl, fun q hq => hq.deliver out _ _,
      fun b₁ hb₁ => ?_⟩
    · obtain rfl : k = k' := by simpa [KVFSMLogEntry.delete] using he
      exact ha
    · cases hb₁
      refine ⟨hs.deliver out _ _, (hc.later hl).note fun hok => ?_⟩
      subst hok
      show ((x.toReplicas.append (S.home r) (.delete k)).committed (S.home r)).lookup k = _
      rw [Replicas.lookup_committed_append, if_pos rfl, KVFSMLogEntry.pickKey_delete, if_pos rfl]
      rfl
  · rw [Stores.toCalls_finish]
    exact ⟨hkept, hsame, fun _ => id, fun _ hb₁ => (by cases hb₁)⟩

omit [DecidableEq Replica] in
/-- A shard becomes swept only when a range without an error ends there. -/
theorem swept_finish {y z : Shard} {clean : Bool} (hbefore : ¬ x.swept z = true)
    (hafter : (x.finish y clean).swept z = true) : clean = true ∧ z = y := by
  unfold Stores.finish at hafter
  split_ifs at hafter with hclean
  · refine ⟨hclean, ?_⟩
    by_contra hne
    exact hbefore (by simpa only [Function.update_of_ne hne] using hafter)
  · exact absurd hafter hbefore

theorem swept_of_step {z : Shard} (hst : (redistributeKeys S).step r x b l = some (x', b'))
    (hbefore : ¬ x.swept z = true) (hafter : x'.swept z = true) :
    ∃ a, b = .scan a ∧ a.clean = true ∧ (∀ k ∈ a.due, k ∉ a.seen → k ∉ (x.node r).keys) ∧
      z = S.home r := by
  rcases step_cases hst with ⟨_, -, -, rfl, -⟩ | ⟨a, k, -, -, rfl, -⟩ | ⟨a, k, v, out, -, rfl, -⟩ |
    ⟨a, k, out, -, rfl, -⟩ | ⟨a, rfl, hover, rfl, -⟩
  · exact absurd hafter hbefore
  · exact absurd hafter hbefore
  · exact absurd hafter hbefore
  · exact absurd hafter hbefore
  · obtain ⟨hclean, hz⟩ := swept_finish hbefore hafter
    exact ⟨a, rfl, hclean, hover, hz⟩

/-! ### Swept shards -/

variable {s s' : Flight Replica (Stores Shard Replica) Sweep}

/-- Every range begins on a replica that has applied the whole committed log of its shard, and on
which no snapshot has been restored. -/
def Begins (S : Scale Shard Replica) (s : Flight Replica (Stores Shard Replica) Sweep) :
    FlightLabel Replica SweepLabel (RaftLabel Replica) → Prop
  | .work i (.config _) =>
    ∀ r b, s.goroutines[i]? = some (r, .job b) → s.shared.Current S.home r
  | _ => True

/-- The invariant of the goroutines. -/
structure Inv (S : Scale Shard Replica) (d : Replicas Shard Replica)
    (s : Flight Replica (Stores Shard Replica) Sweep) : Prop where
  kept : Kept S d s.shared.toCalls
  knows : ∀ (i : ℕ) r b, s.goroutines[i]? = some (r, .job b) → Knows S d s.shared.toCalls r b
  swept : ∀ y, s.shared.swept y = true → ∀ k, Leaves S y k →
    (s.shared.committed y).lookup k = none

omit [DecidableEq Shard] [DecidableEq Replica] in
theorem inv_start (hplaced : ∀ x k, (d.committed x).lookup k ≠ none → x = S.old k) :
    Inv S d (start d) :=
  ⟨kept_start hplaced, fun _ _ _ hi => by simp [start, Flight.opened] at hi,
    fun _ h => (by cases h)⟩

theorem Kept.env {x x' : Stores Shard Replica} {e : RaftLabel Replica} (h : Kept S d x.toCalls)
    (hst : (redistributeKeys S).env x e = some x') :
    Kept S d x'.toCalls ∧ Later S d x.toCalls x'.toCalls ∧ x'.swept = x.swept ∧
      ∀ r, Seasoned S d x.toReplicas r → Seasoned S d x'.toReplicas r := by
  cases e with
  | apply q =>
    obtain ⟨d₁, hd₁, rfl⟩ := Option.map_eq_some_iff.1 hst
    have hlog := Replicas.log_apply hd₁
    exact ⟨h.of_log_eq hlog rfl, later_of_log_eq hlog, rfl, fun r hs => hs.apply hd₁⟩
  | restore q snap index =>
    cases hst
    exact ⟨h.of_log_eq rfl rfl, later_of_log_eq rfl, rfl, fun r hs => hs.restore snap index⟩
  | settle j =>
    obtain ⟨c, hc, rfl⟩ := Option.map_eq_some_iff.1 hst
    obtain ⟨hkept, hl⟩ := h.settle hc
    refine ⟨hkept, hl, rfl, fun r => ?_⟩
    obtain ⟨p, -, rfl⟩ := Calls.settle_eq_some hc
    rintro ⟨n, hn, hle⟩
    exact ⟨n, hn.append p.1 p.2, hle⟩

/-- What a step does to the logs and the processes; only a process that ends loses its map. -/
theorem Inv.shared {l : FlightLabel Replica SweepLabel (RaftLabel Replica)} (h : Inv S d s)
    (hreplays : s.shared.Replays S.home) (hok : Begins S s l)
    (hst : (machine S).next s l = some s') :
    Kept S d s'.shared.toCalls ∧ Later S d s.shared.toCalls s'.shared.toCalls ∧
      (∀ y, s'.shared.swept y = true → s.shared.swept y = true ∨
        ∀ k, Leaves S y k → (s.shared.committed y).lookup k = none) ∧
      ∀ r, l ≠ .crash r → Seasoned S d s.shared.toReplicas r →
        Seasoned S d s'.shared.toReplicas r := by
  have hsame : Later S d s.shared.toCalls s.shared.toCalls := later_of_log_eq rfl
  cases l with
  | spawn r =>
    cases hst
    exact ⟨h.kept, hsame, fun _ => .inl, fun _ _ => id⟩
  | guard i =>
    obtain ⟨r, pt, pt', -, -, hshared⟩ := Flight.advances_of_stepGuard hst
    rw [hshared]
    exact ⟨h.kept, hsame, fun _ => .inl, fun _ _ => id⟩
  | work i l =>
    obtain ⟨r, b, b', hstep, ha⟩ := Flight.advances_of_stepWork hst
    have hknows := h.knows i r b ha.before
    obtain ⟨hkept, hl, hs, -⟩ := hknows.step h.kept hreplays
      (fun _ hlabel => by subst hlabel; exact hok r b ha.before) hstep
    refine ⟨hkept, hl, fun y hy => ?_, fun q _ => hs q⟩
    refine or_iff_not_imp_left.2 fun hbefore k hk => ?_
    -- the range ends in this very step
    obtain ⟨a, rfl, hclean, hover, rfl⟩ := swept_of_step hstep hbefore hy
    exact hknows.2.cleared h.kept hknows.1 hclean hover hk
  | env e =>
    obtain ⟨x, hx, rfl⟩ := Option.map_eq_some_iff.1 hst
    obtain ⟨hkept, hl, hswept, hs⟩ := h.kept.env hx
    exact ⟨hkept, hl, fun y hy => .inl (hswept ▸ hy), fun r _ => hs r⟩
  | crash r =>
    cases hst
    refine ⟨h.kept.of_log_eq rfl rfl, later_of_log_eq rfl, fun _ => .inl, fun q hq => ?_⟩
    rintro ⟨n, hn, hle⟩
    exact ⟨n, hn.setNode_of_ne fun hqr => hq (congrArg _ hqr.symm), hle⟩

theorem Inv.next {l : FlightLabel Replica SweepLabel (RaftLabel Replica)} (h : Inv S d s)
    (hreplays : s.shared.Replays S.home) (hok : Begins S s l)
    (hst : (machine S).next s l = some s') : Inv S d s' := by
  obtain ⟨hkept, hl, hswept, hs⟩ := h.shared hreplays hok hst
  refine ⟨hkept, fun i r b hi => ?_, fun y hy k hk => ?_⟩
  · rcases Flight.job_cases hst hi with ⟨hi, hne⟩ | rfl | ⟨b₀, l₀, rfl, hi, hstep⟩
    · exact (h.knows i r b hi).later hl (hs r hne)
    · trivial
    · exact ((h.knows i r b₀ hi).step h.kept hreplays
        (fun _ hlabel => by subst hlabel; exact hok r b₀ hi) hstep).2.2.2 b rfl
  · exact hl.absent y k hk ((hswept y hy).elim (fun hy => h.swept y hy k hk)
      fun hgone => hgone k hk)

theorem replays_of_reached (hd : d.Replays S.home) (h : (machine S).Reached (start d) s) :
    s.shared.Replays S.home := by
  obtain ⟨-, m, hm, hr⟩ := exists_refines h
  have hreplays := (extends_of_goes hd hm).1.replays
  rw [hr.calls] at hreplays
  exact hreplays

theorem inv_of_reached (hd : d.Replays S.home)
    (hplaced : ∀ x k, (d.committed x).lookup k ≠ none → x = S.old k)
    (h : (machine S).ReachedBy (Begins S) (start d) s) : Inv S d s := by
  induction h with
  | start => exact inv_start hplaced
  | step hreached hok hst ih =>
    exact ih.next (replays_of_reached hd (hreached.weaken fun _ _ _ => trivial)) hok hst

omit [DecidableEq Shard] [DecidableEq Replica] in
/-- When no key has to leave any more, every key is at its new owner, with its value, and nowhere
else. -/
theorem Kept.moved (h : Kept S d c)
    (hplaced : ∀ x k, (d.committed x).lookup k ≠ none → x = S.old k)
    (hgone : ∀ y k, Leaves S y k → (c.committed y).lookup k = none) (y : Shard) (k : String)
    [Decidable (y = S.new k)] :
    (c.committed y).lookup k = if y = S.new k then content S d k else none := by
  -- nothing is committed for a key that stays, and at a shard that is not concerned
  have hstays : S.old k = S.new k ∨ y ≠ S.old k ∧ y ≠ S.new k →
      (c.committed y).lookup k = (d.committed y).lookup k := by
    intro hk
    obtain ⟨es, hes, hmoves⟩ := h.log y
    unfold Replicas.committed
    rw [hes, lookup_storeOf, lookup_storeOf, latest_append]
    exact latest_of_forall_none fun e he => (hmoves e he).pickKey_other hk
  have hempty : y ≠ S.old k → (d.committed y).lookup k = none := by
    intro hne
    by_contra hk
    exact hne (hplaced y k hk)
  split_ifs with hy
  · subst hy
    by_cases hne : S.old k = S.new k
    · rw [hstays (.inl hne), content, hne]
    · exact h.arrived k hne (hgone _ k ⟨rfl, Ne.symm hne⟩)
  · by_cases hold : y = S.old k
    · subst hold
      exact hgone _ k ⟨rfl, Ne.symm hy⟩
    · rw [hstays (.inr ⟨hold, hy⟩), hempty hold]

/-- **A shard that has been swept counts 0 for ever.**  The replicas are in any state that Raft
leaves them in, every key is at its old owner, nothing else is written, and every range begins on a
current replica, after which the replica may lag behind, restore or restart.  Once one goroutine has
gone through the keys of a shard without an error, every poll of a current replica of the shard
counts 0; when every shard has been swept, by goroutines of any replicas at any times, every key is
committed at its new owner, with its value, and nowhere else. -/
theorem moved_of_swept (d : Replicas Shard Replica) (hd : d.Replays S.home)
    (hplaced : ∀ x k, (d.committed x).lookup k ≠ none → x = S.old k)
    (h : (machine S).ReachedBy (Begins S) (start d) s) :
    (∀ r, s.shared.swept (S.home r) = true → s.shared.Current S.home r →
      (movers S s.shared.toCalls).pendingKeys S r = 0) ∧
    ((∀ x, s.shared.swept x = true) → ∀ x k, (s.shared.committed x).lookup k =
      if x = S.new k then (d.committed (S.old k)).lookup k else none) := by
  have hinv := inv_of_reached hd hplaced h
  have hreplays := replays_of_reached hd (h.weaken fun _ _ _ => trivial)
  constructor
  · intro r hswept hcur
    rw [Movers.pendingKeys, Finset.card_eq_zero, Finset.filter_eq_empty_iff]
    intro k hk hmust
    have hkeys : (s.shared.node r).keys = _ := hreplays.keys_current hcur
    rw [show (movers S s.shared.toCalls).node r = s.shared.node r from rfl, hkeys,
      mem_keys_iff] at hk
    exact hk (hinv.swept _ hswept k (leaves_of_mustMove hmust))
  · intro hall x k
    exact hinv.kept.moved hplaced (fun y k hk => hinv.swept y (hall y) k hk) x k

end Steps

theorem replays_oneKey : oneKey.Replays twoShards.home :=
  ((Replicas.replays_opened twoShards.home).append false (.set "a" "1")).apply
    (r := (false, false)) rfl

theorem placed_oneKey (x : Bool) (k : String) (hk : (oneKey.committed x).lookup k ≠ none) :
    x = twoShards.old k := by
  cases x with
  | false => rfl
  | true => exact absurd rfl hk

/-- A goroutine of each shard goes through its keys without an error, and returns. -/
theorem exists_reached_swept :
    ∃ s, (machine twoShards).ReachedBy (Begins twoShards) (start oneKey) s ∧
      (∀ x, s.shared.swept x = true) ∧ s.shared.Current twoShards.home (false, false) ∧
      s.goroutines = [((false, false), .done), ((true, false), .done)] :=
  ⟨_, .head (l := .spawn (false, false)) trivial rfl <|
    .head (l := .spawn (true, false)) trivial rfl <|
    .head (l := .guard 0) trivial rfl <|
    .head (l := .guard 0) trivial rfl <|
    .head (l := .guard 0) trivial rfl <|
    .head (l := .work 0 (.config true)) (fun _ _ h => by cases h; exact ⟨rfl, rfl⟩) rfl <|
    .head (l := .work 0 (.visit "a")) trivial rfl <|
    .head (l := .work 0 (.send .ok)) trivial rfl <|
    .head (l := .work 0 (.purge .ok)) trivial rfl <|
    .head (l := .env (.apply (false, false))) trivial rfl <|
    .head (l := .work 0 .finish) trivial rfl <|
    .head (l := .guard 0) trivial rfl <|
    .head (l := .guard 0) trivial rfl <|
    .head (l := .guard 0) trivial rfl <|
    .head (l := .env (.apply (true, false))) trivial rfl <|
    .head (l := .guard 1) trivial rfl <|
    .head (l := .guard 1) trivial rfl <|
    .head (l := .guard 1) trivial rfl <|
    .head (l := .work 1 (.config true)) (fun _ _ h => by cases h; exact ⟨rfl, rfl⟩) rfl <|
    .head (l := .work 1 (.visit "a")) trivial rfl <|
    .head (l := .work 1 .finish) trivial rfl <|
    .head (l := .guard 1) trivial rfl <|
    .head (l := .guard 1) trivial rfl <|
    .head (l := .guard 1) trivial rfl <|
    .start, by decide, ⟨rfl, rfl⟩, rfl⟩

theorem moved_of_swept_both :
    ∃ s, (machine twoShards).ReachedBy (Begins twoShards) (start oneKey) s ∧
      (movers twoShards s.shared.toCalls).pendingKeys twoShards (false, false) = 0 ∧
      (s.shared.committed true).lookup "a" = some "1" := by
  obtain ⟨s, hs, hswept, hcur, -⟩ := exists_reached_swept
  obtain ⟨hzero, hmoved⟩ := moved_of_swept oneKey replays_oneKey placed_oneKey hs
  exact ⟨s, hs, hzero (false, false) (hswept false) hcur, (hmoved hswept true "a").trans rfl⟩

/-! ### The goroutines end -/

section Termination

variable [DecidableEq Shard] [DecidableEq Replica] {K : Finset String} {m m' : Movers Shard Replica}
  {s s' : Flight Replica (Stores Shard Replica) Sweep}

/-- Every key that a log, a goroutine or a late call mentions is one of the keys `K`. -/
structure Known (S : Scale Shard Replica) (K : Finset String) (m : Movers Shard Replica) :
    Prop where
  log : ∀ x, ∀ e ∈ m.log x, ∀ k, e.pickKey k ≠ none → k ∈ K
  holds : ∀ r k, m.Holds r k → k ∈ K
  late : ∀ p ∈ m.late, ∀ k, p.2.pickKey k ≠ none → k ∈ K
  serves : ∀ r, ∃ i, m.Serves S.home r i

omit [DecidableEq Shard] [DecidableEq Replica] in
/-- The map of a process has known keys only. -/
theorem Known.keys (h : Known S K m) {r : Replica} (hk : k ∈ (m.node r).keys) : k ∈ K := by
  obtain ⟨i, hi⟩ := h.serves r
  rw [Node.keys, mem_keys_iff, hi.read, lookup_storeOf] at hk
  rcases latest_eq_or_exists (KVFSMLogEntry.pickKey k) none ((m.log (S.home r)).take i) with
    heq | ⟨e, he, hp⟩
  · exact absurd heq hk
  · exact h.log _ e (List.mem_of_mem_take he) k (by rw [hp]; simp)

omit [DecidableEq Shard] [DecidableEq Replica] in
/-- A step commits what a goroutine holds, or what is late. -/
theorem Known.commits (h : Known S K m) {l : MoveLabel Replica} {y : Shard} {e : KVFSMLogEntry}
    (hc : m.commits S l = some (y, e)) (k : String) (hp : e.pickKey k ≠ none) : k ∈ K := by
  unfold Movers.commits at hc
  split at hc
  · split at hc <;> cases hc
    rename_i r _ k' v hr
    rw [KVFSMLogEntry.pickKey_set, ne_eq, ite_eq_right_iff, not_forall] at hp
    exact hp.1 ▸ h.holds r k' (.inl ⟨v, hr⟩)
  · split at hc <;> cases hc
    rename_i r _ k' hr
    rw [KVFSMLogEntry.pickKey_delete, ne_eq, ite_eq_right_iff, not_forall] at hp
    exact hp.1 ▸ h.holds r k' (.inr hr)
  · exact h.late _ (List.mem_of_getElem? hc) k hp
  · cases hc

theorem Known.step (h : Known S K m) {l : MoveLabel Replica} (hst : m.step S l = some m') :
    Known S K m' := by
  have hs := Movers.stepped_of_step hst
  refine ⟨fun x e he k hp => ?_, fun r k hr => ?_, fun p hp k hk => ?_,
    fun r => Movers.serves_step h.serves hst r⟩
  · rw [hs.log] at he
    cases hc : m.commits S l with
    | none =>
      rw [hc] at he
      exact h.log x e he k hp
    | some p =>
      obtain ⟨y, e'⟩ := p
      rw [hc] at he
      have he' : e ∈ (m.toReplicas.append y e').log x := he
      rw [Replicas.log_append] at he'
      split_ifs at he' with hxy
      · rcases List.mem_append.1 he' with he' | he'
        · exact h.log y e he' k hp
        · rw [List.mem_singleton.1 he'] at hp
          exact h.commits hc k hp
      · exact h.log x e he' k hp
  · rcases hs.holds hr with hr | ⟨-, v, hget⟩
    · exact h.holds r k hr
    · refine h.keys (r := r) ?_
      rw [Node.keys, mem_keys_iff, answer_eq_ok_iff.1 hget]
      simp
  · rcases hs.late hp with hp | ⟨r, k', v, hr, rfl⟩ | ⟨r, k', hr, rfl⟩
    · exact h.late p hp k hk
    · rw [KVFSMLogEntry.pickKey_set, ne_eq, ite_eq_right_iff, not_forall] at hk
      exact hk.1 ▸ h.holds r k' (.inl ⟨v, hr⟩)
    · rw [KVFSMLogEntry.pickKey_delete, ne_eq, ite_eq_right_iff, not_forall] at hk
      exact hk.1 ▸ h.holds r k' (.inr hr)

omit [DecidableEq Shard] in
theorem Known.start (h : Known S K m) (r : Replica) : Known S K (m.start r) := by
  refine ⟨?_, fun q k hq => h.holds q k ?_, ?_, ?_⟩
  · rw [Movers.toCalls_start]; exact h.log
  · exact hq.imp (fun ⟨v, hv⟩ => ⟨v, Movers.eq_of_start (by simp) hv⟩)
      (Movers.eq_of_start (by simp))
  · rw [Movers.toCalls_start]; exact h.late
  · rw [Movers.toCalls_start]; exact h.serves

variable [Fintype Shard]

/-- The keys that the logs mention. -/
def keys (d : Replicas Shard Replica) : Finset String :=
  Finset.univ.biUnion fun x => ((d.log x).map KVFSMLogEntry.getKey).toFinset

/-- A bound on the steps that a goroutine has left in its loop: at most three for each key that it
has not seen. -/
def size (K : Finset String) : Sweep → ℕ
  | .config => 3 * K.card + 2
  | .scan a => 3 * (K \ a.seen).card + 1
  | .got a _ _ => 3 * (K \ a.seen).card + 3
  | .sent a _ => 3 * (K \ a.seen).card + 2

end Termination

end Workers

end ShardedKvs
