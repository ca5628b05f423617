import Mathlib.Data.Multiset.Filter
import Mathlib.Data.Multiset.Range
import ShardedKvs.Shard.Pause

/-!
# Requests and the log of a shard

A request goes through up to three checks on one or two replicas, leadership may move between any
two of them, `raft.Apply` may fail although its entry is committed in the end, and the call of a
follower may fail although the leader has served the request.  This file follows each request by the
number it got when it arrived.

* `Group.due` : who waits for an answer or has one.  A step moves a number from the first to the
  second (`Step.due`).
* `Group.places` : where the entry of a request is or may still come from: the request is being
  served, or its entry is in the log or late.  No step puts a number there a second time
  (`Step.places`).
* `Group.served_once` : **every request is answered once, and no write is in the log twice**: an
  acknowledged one is there once, a refused one never.  Where the answer is the error of `Apply` or
  of the call to the leader, nothing is said about whether the write is done.
* `Group.in_order` : **a write that is acknowledged before another one arrives comes first in the
  log**, on whichever replicas the two are served and also where they are equal.
-/

namespace ShardedKvs

/-- The number of a request whose sender waits for an answer. -/
def Task.waits {R : Type*} (t : Task R) : Option ℕ := if t.cut then none else some t.id

namespace Group

variable {R : Type*}

/-- The requests whose senders wait for an answer, and those that have one. -/
def due (s : Group R) : Multiset ℕ :=
  (s.tasks : Multiset (Task R)).filterMap Task.waits +
    (s.replies : Multiset Response).map Response.id

/-- The requests whose entries are committed or may be committed later. -/
def entered (s : Group R) : Multiset ℕ :=
  ((s.late : Multiset Logged) + (s.log : Multiset Logged)).filterMap Logged.request

/-- The requests that are being served, and those whose entries are committed or may be committed
later. -/
def places (s : Group R) : Multiset ℕ := (s.tasks : Multiset (Task R)).map Task.id + s.entered

/-! ### What a step does to the numbers -/

theorem coe_of_getElem? {α : Type*} {l : List α} {i : ℕ} {a : α} (h : l[i]? = some a) :
    (l : Multiset α) = a ::ₘ (l.eraseIdx i : Multiset α) := by
  obtain ⟨hlt, rfl⟩ := List.getElem?_eq_some_iff.1 h
  exact Multiset.coe_eq_coe.2 (List.getElem_cons_eraseIdx_perm hlt).symm

theorem coe_set {α : Type*} {l : List α} {i : ℕ} {a : α} (h : l[i]? = some a) (b : α) :
    (l.set i b : Multiset α) = b ::ₘ (l.eraseIdx i : Multiset α) := by
  obtain ⟨hlt, -⟩ := List.getElem?_eq_some_iff.1 h
  exact Multiset.coe_eq_coe.2 (List.set_perm_cons_eraseIdx hlt b)

theorem coe_append_singleton {α : Type*} (l : List α) (a : α) :
    ((l ++ [a] : List α) : Multiset α) = a ::ₘ (l : Multiset α) :=
  Multiset.coe_eq_coe.2 List.perm_append_comm

variable {s s' : Group R} {i : ℕ} {t : Task R}

theorem places_set (ht : s.tasks[i]? = some t) (t' : Task R) (hid : t'.id = t.id) :
    (s.tasks.set i t' : Multiset (Task R)).map Task.id + s.entered = s.places := by
  rw [places, coe_set ht, coe_of_getElem? ht, Multiset.map_cons, Multiset.map_cons, hid]

theorem places_erase (ht : s.tasks[i]? = some t) :
    s.places = t.id ::ₘ ((s.tasks.eraseIdx i : Multiset (Task R)).map Task.id + s.entered) := by
  rw [places, coe_of_getElem? ht, Multiset.map_cons, Multiset.cons_add]

theorem places_reply_le (ht : s.tasks[i]? = some t) (res : Except RpcError Unit) :
    (s.reply i t res).places ≤ s.places := by
  rw [places_erase ht]
  exact Multiset.le_cons_self _ _

/-- An entry is in one place at most after its `Apply`. -/
theorem entered_commit_le (s : Group R) (out : Outcome) (e : Logged) :
    (s.commit out e).entered ≤ (e ::ₘ ((s.late : Multiset Logged) + s.log)).filterMap
      Logged.request := by
  cases out with
  | ok =>
    simp only [entered, commit, coe_append_singleton, Multiset.add_cons]
    exact le_rfl
  | failed => exact Multiset.filterMap_le_filterMap _ (Multiset.le_cons_self _ _)
  | lost =>
    simp only [entered, commit, coe_append_singleton, Multiset.cons_add]
    exact le_rfl

/-- The entries of the redistribution loop and of the toggles are not those of requests. -/
theorem places_commit_le (s : Group R) (out : Outcome) {e : Logged} (he : e.request = none) :
    (s.commit out e).places ≤ s.places := by
  have hle := s.entered_commit_le out e
  rw [Multiset.filterMap_cons_none _ _ he] at hle
  rw [places, places, tasks_commit]
  exact add_le_add le_rfl hle

theorem places_append_le (ht : s.tasks[i]? = some t) (out : Outcome) (res : Except RpcError Unit) :
    ((s.reply i t res).commit out (logged t.id t.req)).places ≤ s.places := by
  have hle := (s.reply i t res).entered_commit_le out (logged t.id t.req)
  have hrequest : (logged t.id t.req).request = some t.id := rfl
  rw [Multiset.filterMap_cons_some _ _ _ hrequest] at hle
  rw [places_erase ht, places, tasks_commit, ← Multiset.add_cons]
  exact add_le_add le_rfl hle

variable [DecidableEq R] {l : Label R}

/-- No step puts the number of a request into a second place. -/
theorem Step.places (h : s.Step l s') :
    s'.places ≤ s.places ∧ s'.arrived = s.arrived ∨
      s'.places = s.arrived ::ₘ s.places ∧ s'.arrived = s.arrived + 1 := by
  cases h with
  | arrive r req =>
    refine .inr ⟨?_, rfl⟩
    simp only [Group.places, coe_append_singleton, Multiset.map_cons, Multiset.cons_add]
    rfl
  | @pass i hint t p ht => exact .inl ⟨(places_set ht { t with point := p } rfl).le, rfl⟩
  | @forward i hint t r ht =>
    exact .inl ⟨(places_set ht { t with point := .replicaRpc r } rfl).le, rfl⟩
  | @cut i t ht => exact .inl ⟨(places_set ht { t with cut := true } rfl).le, rfl⟩
  | refuse ht => exact .inl ⟨places_reply_le ht _, rfl⟩
  | append ht => exact .inl ⟨places_append_le ht _ _, arrived_commit _ _⟩
  | @settle i committed e he =>
    refine .inl ⟨add_le_add le_rfl (Multiset.filterMap_le_filterMap _ ?_), rfl⟩
    rw [coe_of_getElem? he, Multiset.cons_add]
    cases committed with
    | false => exact Multiset.le_cons_self _ _
    | true =>
      simp only [if_true, coe_append_singleton, Multiset.add_cons]
      exact le_rfl
  | purge => exact .inl ⟨places_commit_le s _ rfl, arrived_commit _ _⟩
  | @enable r out =>
    have hle := places_commit_le s out (e := ⟨.toggle, .toggle true, none⟩) rfl
    refine .inl ?_
    split
    · exact ⟨hle, arrived_commit out _⟩
    · exact ⟨hle, arrived_commit out _⟩
  | _ => exact .inl ⟨le_rfl, rfl⟩

omit [DecidableEq R] in
theorem due_reply (ht : s.tasks[i]? = some t) (res : Except RpcError Unit) :
    (s.reply i t res).due = s.due := by
  rw [due, due, coe_of_getElem? ht]
  cases hcut : t.cut with
  | true =>
    rw [Multiset.filterMap_cons_none _ _ (by simp [Task.waits, hcut])]
    simp [reply, hcut]
  | false =>
    rw [Multiset.filterMap_cons_some _ _ _ (b := t.id) (by simp [Task.waits, hcut])]
    simp only [reply, hcut, Bool.false_eq_true, if_false, coe_append_singleton, Multiset.map_cons,
      Multiset.add_cons, Multiset.cons_add]

omit [DecidableEq R] in
/-- Whether a sender waits does not depend on where its request is. -/
theorem due_goto (ht : s.tasks[i]? = some t) (p : Point R) : (s.goto i t p).due = s.due := by
  simp only [due, goto]
  rw [coe_set ht, coe_of_getElem? ht]
  have hsame : ({ t with point := p } : Task R).waits = t.waits := rfl
  cases hwaits : t.waits with
  | none =>
    rw [Multiset.filterMap_cons_none _ _ hwaits,
      Multiset.filterMap_cons_none _ _ (hsame.trans hwaits)]
  | some n =>
    rw [Multiset.filterMap_cons_some _ _ _ hwaits,
      Multiset.filterMap_cons_some _ _ _ (hsame.trans hwaits)]

omit [DecidableEq R] in
theorem due_cutOff (ht : s.tasks[i]? = some t) (hcut : t.cut = false) :
    (s.cutOff i t).due = s.due := by
  have hwaits : t.waits = some t.id := by simp [Task.waits, hcut]
  have hwaits' : ({ t with cut := true } : Task R).waits = none := rfl
  simp only [due, cutOff]
  rw [coe_set ht, coe_of_getElem? ht, Multiset.filterMap_cons_none _ _ hwaits',
    Multiset.filterMap_cons_some _ _ _ hwaits]
  simp only [coe_append_singleton, Multiset.map_cons, Multiset.add_cons, Multiset.cons_add]

omit [DecidableEq R] in
theorem due_commit (s : Group R) (out : Outcome) (e : Logged) : (s.commit out e).due = s.due := by
  rw [due, due, tasks_commit, replies_commit]

theorem Step.due (h : s.Step l s') :
    s'.due = s.due ∧ s'.arrived = s.arrived ∨
      s'.due = s.arrived ::ₘ s.due ∧ s'.arrived = s.arrived + 1 := by
  cases h with
  | arrive r req =>
    refine .inr ⟨?_, rfl⟩
    have hwaits : (⟨s.arrived, req, .shardRpc r, false⟩ : Task R).waits = some s.arrived := rfl
    simp only [Group.due, coe_append_singleton]
    rw [Multiset.filterMap_cons_some _ _ _ hwaits, Multiset.cons_add]
  | pass ht => exact .inl ⟨due_goto ht _, rfl⟩
  | forward ht => exact .inl ⟨due_goto ht _, rfl⟩
  | cut ht hcut => exact .inl ⟨due_cutOff ht hcut, rfl⟩
  | refuse ht => exact .inl ⟨due_reply ht _, rfl⟩
  | append ht => exact .inl ⟨(due_commit _ _ _).trans (due_reply ht _), arrived_commit _ _⟩
  | purge => exact .inl ⟨due_commit _ _ _, arrived_commit _ _⟩
  | @enable r out =>
    refine .inl ?_
    split
    · exact ⟨due_commit s out _, arrived_commit out _⟩
    · exact ⟨due_commit s out _, arrived_commit out _⟩
  | _ => exact .inl ⟨rfl, rfl⟩

/-! ### What an answer says about the log -/

/-- What an answer tells the sender: an acknowledged request is in the log, a refused one is not
and never will be. -/
structure Kept (s : Group R) (p : Response) : Prop where
  acked : p.res = .ok () → logged p.id p.req ∈ s.log
  refused : ∀ e, p.res = .error e → e.refuses = true → p.id ∉ s.places

omit [DecidableEq R] in
theorem not_mem_places_reply (hn : s.places.Nodup) (ht : s.tasks[i]? = some t)
    (res : Except RpcError Unit) : t.id ∉ (s.reply i t res).places := by
  rw [places_erase ht, Multiset.nodup_cons] at hn
  exact hn.1

theorem Step.replies (h : s.Step l s') (hn : s.places.Nodup) :
    s'.replies = s.replies ∨ ∃ p, s'.replies = s.replies ++ [p] ∧ s'.Kept p := by
  have hreply : ∀ {i : ℕ} {t : Task R} {res : Except RpcError Unit},
      s'.replies = (s.reply i t res).replies → s'.Kept ⟨t.id, t.req, res⟩ →
      s'.replies = s.replies ∨ ∃ p, s'.replies = s.replies ++ [p] ∧ s'.Kept p := by
    intro i t res hreplies hkept
    cases hcut : t.cut with
    | true => exact .inl (by rw [hreplies]; simp [reply, hcut])
    | false => exact .inr ⟨_, by rw [hreplies]; simp [reply, hcut], hkept⟩
  cases h with
  | @refuse l i t e ht he =>
    refine hreply rfl ⟨fun hok => ?_, fun e' _ _ => not_mem_places_reply hn ht _⟩
    cases hok
  | @append i out t ht hp =>
    refine hreply (replies_commit _ _) ⟨fun hok => ?_, fun e herr hrefuses => ?_⟩
    · cases out with
      | ok => exact List.mem_append_right _ List.mem_cons_self
      | failed => cases hok
      | lost => cases hok
    · cases out <;> cases herr <;> cases hrefuses
  | @cut i t ht hcut =>
    refine .inr ⟨_, rfl, fun hok => ?_, fun e herr hrefuses => ?_⟩
    · cases hok
    · cases herr; cases hrefuses
  | purge => exact .inl (replies_commit _ _)
  | enable =>
    refine .inl ?_
    split
    · exact replies_commit _ _
    · exact replies_commit _ _
  | _ => exact .inl rfl

theorem Step.log_grows (h : s.Step l s') : s.log <+: s'.log := by
  rcases h.grows.log with hlog | ⟨e, -, hlog⟩ <;> rw [hlog]
  exact List.prefix_append _ _

/-! ### Whole runs of a shard -/

/-- The account of a shard. -/
structure Account (s : Group R) : Prop where
  unset : s.FlagUnset
  due : s.due = Multiset.range s.arrived
  once : s.places.Nodup
  arrived : ∀ i ∈ s.places, i < s.arrived
  kept : ∀ p ∈ s.replies, s.Kept p

/-- What an answer has said stays true. -/
theorem Account.kept_step (h : s.Account) (hstep : s.Step l s') {p : Response}
    (hp : p ∈ s.replies) : s'.Kept p := by
  refine ⟨fun hok => hstep.log_grows.subset ((h.kept p hp).acked hok),
    fun e herr hrefuses hmem => ?_⟩
  have hnot := (h.kept p hp).refused e herr hrefuses
  rcases hstep.places with ⟨hle, -⟩ | ⟨hplaces, -⟩
  · exact hnot (Multiset.mem_of_le hle hmem)
  · -- the number of the new request is not that of an answered one
    have hlt : p.id < s.arrived := by
      rw [← Multiset.mem_range, ← h.due]
      exact Multiset.mem_add.2 (.inr (Multiset.mem_map_of_mem _ hp))
    rw [hplaces] at hmem
    rcases Multiset.mem_cons.1 hmem with heq | hmem
    · omega
    · exact hnot hmem

theorem Account.next (h : s.Account) (hst : s.next l = some s') : s'.Account := by
  have hstep := h.unset.step hst
  have hbound : ∀ i ∈ s'.places, i < s'.arrived := by
    intro i hi
    rcases hstep.places with ⟨hle, harr⟩ | ⟨hplaces, harr⟩
    · rw [harr]
      exact h.arrived i (Multiset.mem_of_le hle hi)
    · rw [hplaces] at hi
      rcases Multiset.mem_cons.1 hi with rfl | hi
      · omega
      · have := h.arrived i hi
        omega
  refine ⟨h.unset.next hst, ?_, ?_, hbound, ?_⟩
  · rcases hstep.due with ⟨hdue, harr⟩ | ⟨hdue, harr⟩
    · rw [hdue, harr, h.due]
    · rw [hdue, harr, h.due, Multiset.range_succ]
  · rcases hstep.places with ⟨hle, -⟩ | ⟨hplaces, -⟩
    · exact Multiset.nodup_of_le hle h.once
    · rw [hplaces, Multiset.nodup_cons]
      exact ⟨fun hi => lt_irrefl _ (h.arrived _ hi), h.once⟩
  · intro p hp
    rcases hstep.replies h.once with hreplies | ⟨q, hreplies, hq⟩ <;> rw [hreplies] at hp
    · exact h.kept_step hstep hp
    · rcases List.mem_append.1 hp with hp | hp
      · exact h.kept_step hstep hp
      · rw [List.mem_singleton.1 hp]; exact hq

theorem account_of_reached (h : (machine R).Reached (opened R) s) : s.Account :=
  h.invariant ⟨flagUnset_opened, rfl, Multiset.nodup_zero,
    fun _ hi => absurd hi (Multiset.notMem_zero _), fun p hp => by cases hp⟩
    fun _ _ _ hi _ hst => hi.next hst

omit [DecidableEq R] in
theorem mem_places_of_log {i : ℕ} (h : i ∈ s.log.filterMap Logged.request) : i ∈ s.places := by
  obtain ⟨e, he, hi⟩ := List.mem_filterMap.1 h
  exact Multiset.mem_add.2 (.inr ((Multiset.mem_filterMap _ _).2
    ⟨e, Multiset.mem_add.2 (.inr he), hi⟩))

omit [DecidableEq R] in
theorem log_le_places : (s.log.filterMap Logged.request : Multiset ℕ) ≤ s.places := by
  rw [places, entered, Multiset.filterMap_add]
  exact (Multiset.le_add_left _ _).trans (Multiset.le_add_left _ _)

/-- **Every request is answered once, and no write is in the log twice.**  In every run, whatever
happens to the leaders and to the calls between replicas: the requests that have arrived are those
that wait for an answer and those that have one, each once; no request has two entries in the log;
an acknowledged request has its entry there, and a request that is refused has none. -/
theorem served_once (h : (machine R).Reached (opened R) s) :
    s.due = Multiset.range s.arrived ∧ (s.log.filterMap Logged.request).Nodup ∧
      (∀ p ∈ s.replies, p.res = .ok () → logged p.id p.req ∈ s.log) ∧
      ∀ p ∈ s.replies, ∀ e, p.res = .error e → e.refuses = true →
        p.id ∉ s.log.filterMap Logged.request := by
  have hi := account_of_reached h
  refine ⟨hi.due, ?_, fun p hp => (hi.kept p hp).acked, fun p hp e herr hrefuses hmem => ?_⟩
  · rw [← Multiset.coe_nodup]
    exact Multiset.nodup_of_le log_le_places hi.once
  · exact (hi.kept p hp).refused e herr hrefuses (mem_places_of_log hmem)

/-- The state after a run of two replicas. -/
def after (ls : List (Label Bool)) : Group Bool :=
  ((machine Bool).run (opened Bool) ls).getD (opened Bool)

/-- Three requests: a `Put` at the leader, a `Put` that a follower forwards and the leader rejects,
and a `Delete` whose sender is cut off before its entry is committed late. -/
def mixed : List (Label Bool) :=
  [.lead true true, .arrive true (.put "a" "1" false), .check 0 none, .append 0 .ok,
    .arrive false (.put "a" "2" false), .check 0 (some true), .check 0 none,
    .arrive false (.delete "a"), .check 0 (some true), .cut 0, .check 0 none, .check 0 none,
    .append 0 .lost, .settle 0 true]

theorem served_once_mixed :
    (after mixed).replies.map Response.res = [.ok (), .error .writesDisabled, .error .rpc] ∧
      (after mixed).log.filterMap Logged.request = [0, 2] ∧
      logged 0 (.put "a" "1" false) ∈ (after mixed).log := by
  have hreached : (machine Bool).Reached (opened Bool) (after mixed) := .of_run mixed rfl
  exact ⟨by decide, by decide,
    (served_once hreached).2.2.1 ⟨0, .put "a" "1" false, .ok ()⟩ (by decide) rfl⟩

/-- **A write that is acknowledged before another one arrives comes first in the log.**  The log has
a front part with the entry of the acknowledged write in it and no entry of a request that arrives
later, not even of an equal one. -/
theorem in_order (h : (machine R).Reached (opened R) s) (h' : (machine R).Reached s s')
    {p : Response} (hp : p ∈ s.replies) (hok : p.res = .ok ()) :
    ∃ front back, s'.log = front ++ back ∧ logged p.id p.req ∈ front ∧
      ∀ i, s.arrived ≤ i → i ∉ front.filterMap Logged.request := by
  have hi := account_of_reached h
  have hlog : s'.FlagUnset ∧ s.log <+: s'.log :=
    h'.invariant (I := fun s' => s'.FlagUnset ∧ s.log <+: s'.log) ⟨hi.unset, List.prefix_rfl⟩
      fun _ _ _ hi _ hst => ⟨hi.1.next hst, hi.2.trans (hi.1.step hst).log_grows⟩
  obtain ⟨back, hback⟩ := hlog.2
  refine ⟨s.log, back, hback.symm, (hi.kept p hp).acked hok, fun i hle hmem => ?_⟩
  have hlt := hi.arrived i (mem_places_of_log hmem)
  omega

/-- The first becomes the leader and serves a `Put`. -/
def firstPut : List (Label Bool) :=
  [.lead true true, .arrive true (.put "a" "1" false), .check 0 none, .append 0 .ok]

/-- The same `Put` once more. -/
def secondPut : List (Label Bool) :=
  [.arrive true (.put "a" "1" false), .check 0 none, .append 0 .ok]

theorem in_order_repeated :
    ∃ front back, (after (firstPut ++ secondPut)).log = front ++ back ∧
      logged 0 (.put "a" "1" false) ∈ front ∧
      ∀ i, (after firstPut).arrived ≤ i → i ∉ front.filterMap Logged.request := by
  have hfirst : (machine Bool).Reached (opened Bool) (after firstPut) := .of_run firstPut rfl
  have hsecond : (machine Bool).Reached (after firstPut) (after (firstPut ++ secondPut)) :=
    .of_run secondPut rfl
  exact in_order hfirst hsecond (p := ⟨0, .put "a" "1" false, .ok ()⟩) (by decide) rfl

end Group

end ShardedKvs
