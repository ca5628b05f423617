import Mathlib.Data.Finmap
import Mathlib.Tactic.Common

/-!
# A heap of maps with reference semantics

In a language with reference maps a variable of map type holds a reference to a map object (or
nil), a pointer points to such a variable, and two variables may refer to the same object.  `Heap`
models exactly this: `vars p` is the reference held by the variable at address `p`, `maps r` the
contents of the map object `r`.  Reading through nil gives the empty map, removing a key from nil
does nothing, and setting a key of nil is a run-time error (`Heap.set` is then `none`).

* `Heap.read h p` : the contents seen through the pointer `p`.
* `Heap.set`, `Heap.del` : update the object the variable at `p` refers to; every other variable
  that refers to the same object sees the update (`Heap.read_set`), the others do not
  (`Heap.read_set_of_ne`).
* `Heap.alloc` : a fresh variable, nil or referring to a fresh object.
-/

namespace ShardedKvs

/-! ### Lookups as conditionals -/

section Lookup

variable {K V : Type*} [DecidableEq K]

theorem lookup_insert_eq (m : Finmap fun _ : K => V) (k k' : K) (v : V) :
    (m.insert k v).lookup k' = if k' = k then some v else m.lookup k' := by
  split_ifs with hk
  · subst hk; exact Finmap.lookup_insert m
  · exact Finmap.lookup_insert_of_ne m hk

theorem lookup_erase_eq (m : Finmap fun _ : K => V) (k k' : K) :
    (m.erase k).lookup k' = if k' = k then none else m.lookup k' := by
  split_ifs with hk
  · subst hk; exact Finmap.lookup_erase _ m
  · exact Finmap.lookup_erase_ne hk

end Lookup

/-- A heap of map objects and of variables that refer to them.  No variable refers to an object
that has not been allocated. -/
structure Heap (K V : Type*) where
  /-- The contents of every map object. -/
  maps : ℕ → Finmap fun _ : K => V
  /-- The reference held by every variable; `none` is nil. -/
  vars : ℕ → Option ℕ
  /-- The next free object. -/
  nextMap : ℕ
  /-- The next free variable. -/
  nextVar : ℕ
  vars_lt : ∀ p r, vars p = some r → r < nextMap

namespace Heap

variable {K V : Type*}

/-- The heap in which nothing is allocated. -/
def empty : Heap K V := ⟨fun _ => ∅, fun _ => none, 0, 0, by simp⟩

/-- The contents of the object referred to; nil reads as the empty map. -/
def contents (h : Heap K V) : Option ℕ → Finmap fun _ : K => V
  | none => ∅
  | some r => h.maps r

/-- The contents seen through the pointer `p`. -/
def read (h : Heap K V) (p : ℕ) : Finmap fun _ : K => V := h.contents (h.vars p)

/-- Replace the contents of the object `r`. -/
def store (h : Heap K V) (r : ℕ) (m : Finmap fun _ : K => V) : Heap K V :=
  { h with maps := Function.update h.maps r m }

/-- A fresh variable: nil, or referring to a fresh object with the given contents. -/
def alloc (h : Heap K V) : Option (Finmap fun _ : K => V) → Heap K V
  | none =>
    { h with
      vars := Function.update h.vars h.nextVar none
      nextVar := h.nextVar + 1
      vars_lt := by
        intro p r hp
        by_cases hpn : p = h.nextVar
        · subst hpn; simp at hp
        · rw [Function.update_of_ne hpn] at hp; exact h.vars_lt p r hp }
  | some m =>
    { maps := Function.update h.maps h.nextMap m
      vars := Function.update h.vars h.nextVar (some h.nextMap)
      nextMap := h.nextMap + 1
      nextVar := h.nextVar + 1
      vars_lt := by
        intro p r hp
        by_cases hpn : p = h.nextVar
        · subst hpn; simp at hp; omega
        · rw [Function.update_of_ne hpn] at hp
          have := h.vars_lt p r hp
          omega }

section Update

variable [DecidableEq K]

/-- Set a key of the map `*p`; `none` is the run-time error of writing to a nil map. -/
def set (h : Heap K V) (p : ℕ) (k : K) (v : V) : Option (Heap K V) :=
  match h.vars p with
  | none => none
  | some r => some (h.store r ((h.maps r).insert k v))

/-- Remove a key of the map `*p`; on a nil map this does nothing. -/
def del (h : Heap K V) (p : ℕ) (k : K) : Heap K V :=
  match h.vars p with
  | none => h
  | some r => h.store r ((h.maps r).erase k)

end Update

variable {h h' : Heap K V} {p q : ℕ}

/-! ### Reading after an update -/

@[simp] theorem vars_store (r : ℕ) (m : Finmap fun _ : K => V) : (h.store r m).vars = h.vars := rfl

theorem contents_store {r : ℕ} (m : Finmap fun _ : K => V) :
    (h.store r m).contents (some r) = m := by
  simp [contents, store]

theorem contents_store_of_ne {r : ℕ} {x : Option ℕ} (m : Finmap fun _ : K => V)
    (hx : x ≠ some r) : (h.store r m).contents x = h.contents x := by
  cases x with
  | none => rfl
  | some r' =>
    have hr : r' ≠ r := fun e => hx (e ▸ rfl)
    simp [contents, store, Function.update_of_ne hr]

variable [DecidableEq K]

theorem set_eq_some {k : K} {v : V} (hset : h.set p k v = some h') :
    ∃ r, h.vars p = some r ∧ h' = h.store r ((h.maps r).insert k v) := by
  unfold set at hset
  split at hset
  · cases hset
  · rename_i r hr
    exact ⟨r, hr, (Option.some.inj hset).symm⟩

theorem exists_set {r : ℕ} (hp : h.vars p = some r) (k : K) (v : V) :
    ∃ h', h.set p k v = some h' :=
  ⟨h.store r ((h.maps r).insert k v), by simp only [set, hp]⟩

theorem vars_set {k : K} {v : V} (hset : h.set p k v = some h') : h'.vars = h.vars := by
  obtain ⟨r, -, rfl⟩ := set_eq_some hset
  rfl

theorem nextVar_set {k : K} {v : V} (hset : h.set p k v = some h') : h'.nextVar = h.nextVar := by
  obtain ⟨r, -, rfl⟩ := set_eq_some hset
  rfl

/-- Every variable that refers to the object written to sees the update. -/
theorem read_set {k : K} {v : V} (hset : h.set p k v = some h') (hpq : h.vars q = h.vars p) :
    h'.read q = (h.read q).insert k v := by
  obtain ⟨r, hr, rfl⟩ := set_eq_some hset
  unfold read
  rw [vars_store, hpq, hr, contents_store]
  rfl

/-- A variable that refers to another object does not see the update. -/
theorem read_set_of_ne {k : K} {v : V} (hset : h.set p k v = some h')
    (hpq : h.vars q ≠ h.vars p) : h'.read q = h.read q := by
  obtain ⟨r, hr, rfl⟩ := set_eq_some hset
  unfold read
  rw [vars_store, contents_store_of_ne]
  rwa [← hr]

@[simp] theorem vars_del (k : K) : (h.del p k).vars = h.vars := by
  unfold del; split <;> rfl

@[simp] theorem nextVar_del (k : K) : (h.del p k).nextVar = h.nextVar := by
  unfold del; split <;> rfl

theorem read_del (k : K) (hpq : h.vars q = h.vars p) :
    (h.del p k).read q = (h.read q).erase k := by
  unfold read
  rw [vars_del, hpq]
  unfold del
  cases hr : h.vars p with
  | none => apply Finmap.ext_lookup; intro x; simp [contents, lookup_erase_eq]
  | some r => exact contents_store _

theorem read_del_of_ne (k : K) (hpq : h.vars q ≠ h.vars p) : (h.del p k).read q = h.read q := by
  unfold read
  rw [vars_del]
  unfold del
  cases hr : h.vars p with
  | none => rfl
  | some r => exact contents_store_of_ne _ (by rwa [← hr])

/-! ### Reading after an allocation -/

omit [DecidableEq K]

@[simp] theorem nextVar_alloc (m : Option (Finmap fun _ : K => V)) :
    (h.alloc m).nextVar = h.nextVar + 1 := by
  cases m <;> rfl

theorem vars_alloc_of_lt (m : Option (Finmap fun _ : K => V)) (hq : q < h.nextVar) :
    (h.alloc m).vars q = h.vars q := by
  cases m <;> simp [alloc, Function.update_of_ne (Nat.ne_of_lt hq)]

@[simp] theorem read_alloc (m : Option (Finmap fun _ : K => V)) :
    (h.alloc m).read h.nextVar = m.getD ∅ := by
  cases m <;> simp [alloc, read, contents]

/-- An allocation does not disturb the old variables. -/
theorem read_alloc_of_lt (m : Option (Finmap fun _ : K => V)) (hq : q < h.nextVar) :
    (h.alloc m).read q = h.read q := by
  unfold read
  rw [vars_alloc_of_lt m hq]
  cases m with
  | none => rfl
  | some m =>
    cases hr : h.vars q with
    | none => rfl
    | some r =>
      have := h.vars_lt q r hr
      simp [contents, alloc, Function.update_of_ne (Nat.ne_of_lt this)]

/-- The new variable refers to an object of its own (or is nil). -/
theorem vars_alloc_ne (m : Finmap fun _ : K => V) (hq : q < h.nextVar) :
    (h.alloc (some m)).vars q ≠ (h.alloc (some m)).vars h.nextVar := by
  rw [vars_alloc_of_lt _ hq]
  intro e
  have hlt := h.vars_lt q h.nextMap (by simpa [alloc] using e)
  exact lt_irrefl _ hlt

end Heap

end ShardedKvs
