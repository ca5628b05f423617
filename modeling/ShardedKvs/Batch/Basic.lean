import Mathlib.Data.List.Nodup

/-!
# Batches of calls that stop at the first failure

A controller creates, deletes and asks resources one by one, in a loop that returns at the first
failure.  Whatever the calls before it did stays.

* `createAll` : create resources with unique keys; a prefix of them exists afterwards
  (`createAll_spec`), all of them if nothing fails (`createAll_of_forall`), which takes that no key
  is in use (`notMem_of_createAll`).
* `deleteAll` : delete the resources that match a test (`deleteAll_of_true`); the others are not
  touched (`mem_deleteAll`).
* `askAll`, `pollAll` : ask every resource, and stop at the first refusal or error.
-/

namespace ShardedKvs

variable {α ι κ ε β : Type*}

/-! ### Creating -/

section Create

variable [DecidableEq κ] (key : α → κ) (mk : ι → α) (ok : ι → Bool)

/-- Create a resource; the call fails when its key is taken. -/
def create (allowed : Bool) (xs : List α) (x : α) : Option (List α) :=
  if allowed = true ∧ key x ∉ xs.map key then some (xs ++ [x]) else none

/-- Create the resources with the given indices in order; the flag says whether all calls have
succeeded. -/
def createAll : List ι → List α → List α × Bool
  | [], xs => (xs, true)
  | i :: is, xs =>
    match create key (ok i) xs (mk i) with
    | some xs' => createAll is xs'
    | none => (xs, false)

variable {key mk ok}

theorem create_eq_some {allowed : Bool} {xs xs' : List α} {x : α} :
    create key allowed xs x = some xs' ↔
      (allowed = true ∧ key x ∉ xs.map key) ∧ xs ++ [x] = xs' := by
  unfold create
  split_ifs with h
  · exact ⟨fun he => ⟨h, Option.some.inj he⟩, fun he => congrArg some he.2⟩
  · exact ⟨nofun, fun he => absurd he.1 h⟩

variable (key mk ok) in
/-- A prefix of the resources is created, all of them when the flag says so. -/
theorem createAll_spec (is : List ι) (xs : List α) :
    ∃ done rest, is = done ++ rest ∧ (createAll key mk ok is xs).1 = xs ++ done.map mk ∧
      ((createAll key mk ok is xs).2 = true → rest = []) := by
  induction is generalizing xs with
  | nil => exact ⟨[], [], rfl, by simp [createAll], fun _ => rfl⟩
  | cons i is ih =>
    unfold createAll
    split
    · rename_i xs' hc
      obtain ⟨-, rfl⟩ := create_eq_some.1 hc
      obtain ⟨done, rest, his, hxs, hok⟩ := ih (xs ++ [mk i])
      exact ⟨i :: done, rest, by rw [his]; rfl, by rw [hxs]; simp, hok⟩
    · exact ⟨[], i :: is, rfl, by simp, nofun⟩

variable (key) in
/-- Resources with consecutive indices: those of a shorter range are created. -/
theorem createAll_range' (mk : ℕ → α) (ok : ℕ → Bool) (start len : ℕ) (xs : List α) :
    ∃ m ≤ len, (createAll key mk ok (List.range' start len) xs).1 =
        xs ++ (List.range' start m).map mk ∧
      ((createAll key mk ok (List.range' start len) xs).2 = true → m = len) := by
  obtain ⟨done, rest, his, hxs, hok⟩ := createAll_spec key mk ok
    (List.range' start len) xs
  obtain ⟨m, hm, rfl, hrest⟩ := List.range'_eq_append_iff.1 his
  refine ⟨m, hm, hxs, fun h => ?_⟩
  rw [hok h] at hrest
  have := congrArg List.length hrest
  rw [List.length_nil, List.length_range'] at this
  omega

/-- All resources are created when every call is allowed and their keys are free and distinct. -/
theorem createAll_of_forall (is : List ι) {xs : List α} (hinj : Function.Injective (key ∘ mk))
    (his : is.Nodup) (hok : ∀ i ∈ is, ok i = true ∧ key (mk i) ∉ xs.map key) :
    createAll key mk ok is xs = (xs ++ is.map mk, true) := by
  induction is generalizing xs with
  | nil => simp [createAll]
  | cons i is ih =>
    obtain ⟨hi, his⟩ := List.nodup_cons.1 his
    have hc : create key (ok i) xs (mk i) = some (xs ++ [mk i]) :=
      create_eq_some.2 ⟨hok i List.mem_cons_self, rfl⟩
    rw [createAll, hc]
    have hrec := @ih (xs ++ [mk i]) his fun j hj => by
      obtain ⟨hj₁, hj₂⟩ := hok j (List.mem_cons_of_mem i hj)
      refine ⟨hj₁, fun hmem => ?_⟩
      rw [List.map_append, List.mem_append] at hmem
      rcases hmem with hmem | hmem
      · exact hj₂ hmem
      · have hji : j = i := hinj (List.mem_singleton.1 hmem)
        exact hi (hji ▸ hj)
    exact hrec.trans (by simp)

theorem notMem_of_createAll {is : List ι} {xs : List α}
    (h : (createAll key mk ok is xs).2 = true) : ∀ i ∈ is, key (mk i) ∉ xs.map key := by
  induction is generalizing xs with
  | nil => intro i hi; cases hi
  | cons j is ih =>
    intro i hi
    unfold createAll at h
    split at h
    · rename_i xs' hc
      obtain ⟨⟨-, hfree⟩, rfl⟩ := create_eq_some.1 hc
      rcases List.mem_cons.1 hi with rfl | hi
      · exact hfree
      · intro hmem
        exact ih h i hi (by rw [List.map_append]; exact List.mem_append_left _ hmem)
    · cases h

end Create

/-! ### Deleting -/

section Delete

variable (p ok : α → Bool)

/-- Delete the resources that match `p`, in order; the flag says whether all calls have
succeeded. -/
def deleteAll : List α → List α × Bool
  | [] => ([], true)
  | x :: xs =>
    if p x then if ok x then deleteAll xs else (x :: xs, false)
    else (x :: (deleteAll xs).1, (deleteAll xs).2)

variable {p ok}

theorem deleteAll_sublist (xs : List α) : (deleteAll p ok xs).1.Sublist xs := by
  induction xs with
  | nil => exact List.Sublist.slnil
  | cons x xs ih =>
    unfold deleteAll
    split_ifs
    · exact ih.cons x
    · exact List.Sublist.refl _
    · exact ih.cons_cons x

/-- What does not match stays. -/
theorem mem_deleteAll {xs : List α} {x : α} (hx : x ∈ xs) (hp : p x = false) :
    x ∈ (deleteAll p ok xs).1 := by
  induction xs with
  | nil => cases hx
  | cons y xs ih =>
    unfold deleteAll
    rcases List.mem_cons.1 hx with rfl | hmem
    · simp [hp]
    · split_ifs
      · exact ih hmem
      · exact hx
      · exact List.mem_cons_of_mem y (ih hmem)

/-- When all calls succeed, nothing that matches is left. -/
theorem deleteAll_of_true {xs : List α} (h : (deleteAll p ok xs).2 = true) {x : α}
    (hx : x ∈ (deleteAll p ok xs).1) : p x = false := by
  induction xs with
  | nil => cases hx
  | cons y xs ih =>
    unfold deleteAll at h hx
    split_ifs at h hx with hp hok
    · exact ih h hx
    · rcases List.mem_cons.1 hx with rfl | hmem
      · simpa using hp
      · exact ih h hmem

theorem deleteAll_of_forall (hok : ∀ x, ok x = true) (xs : List α) :
    (deleteAll p ok xs).2 = true := by
  induction xs with
  | nil => rfl
  | cons x xs ih =>
    simp only [deleteAll, hok x, if_true]
    split <;> exact ih

end Delete

/-! ### Asking -/

/-- How a round of questions ends. -/
inductive Verdict (ε : Type*) where
  | all
  | waiting
  | failed (err : ε)

/-- Ask everyone for a yes, up to the first no or error; with those that said yes. -/
def askAll (ask : α → Except ε Bool) : List α → List α × Verdict ε
  | [] => ([], .all)
  | x :: xs =>
    match ask x with
    | .error e => ([], .failed e)
    | .ok false => ([], .waiting)
    | .ok true => (x :: (askAll ask xs).1, (askAll ask xs).2)

/-- A round that ends well has a yes of everyone. -/
theorem askAll_of_all {ask : α → Except ε Bool} {xs : List α} (h : (askAll ask xs).2 = .all) :
    (askAll ask xs).1 = xs := by
  induction xs with
  | nil => rfl
  | cons x xs ih =>
    unfold askAll at h ⊢
    split at h
    · cases h
    · cases h
    · rw [ih h]

theorem askAll_of_forall {ask : α → Except ε Bool} (h : ∀ x, ask x = .ok true) (xs : List α) :
    (askAll ask xs).2 = .all := by
  induction xs with
  | nil => rfl
  | cons x xs ih =>
    simp only [askAll, h x]
    exact ih

theorem ask_of_mem_askAll {ask : α → Except ε Bool} {xs : List α} {x : α}
    (hx : x ∈ (askAll ask xs).1) : ask x = .ok true := by
  induction xs with
  | nil => cases hx
  | cons y xs ih =>
    unfold askAll at hx
    split at hx
    · cases hx
    · cases hx
    · rename_i hy
      rcases List.mem_cons.1 hx with rfl | hx
      · exact hy
      · exact ih hx

/-- Ask everyone for a value, up to the first error. -/
def pollAll (ask : α → Except ε β) : List α → List (α × β) × Option ε
  | [] => ([], none)
  | x :: xs =>
    match ask x with
    | .error e => ([], some e)
    | .ok b => ((x, b) :: (pollAll ask xs).1, (pollAll ask xs).2)

/-- A round without an error has the value of everyone. -/
theorem mem_pollAll {ask : α → Except ε β} {xs : List α} (h : (pollAll ask xs).2 = none) {x : α}
    (hx : x ∈ xs) : ∃ b, ask x = .ok b ∧ (x, b) ∈ (pollAll ask xs).1 := by
  induction xs with
  | nil => cases hx
  | cons y xs ih =>
    unfold pollAll at h ⊢
    split at h
    · cases h
    · rename_i b hy
      rcases List.mem_cons.1 hx with rfl | hmem
      · exact ⟨b, hy, by simp⟩
      · obtain ⟨b', hb', hmem'⟩ := ih h hmem
        exact ⟨b', hb', by simp [hmem']⟩

theorem pollAll_of_forall {ask : α → Except ε β} {b : β} (h : ∀ x, ask x = .ok b) (xs : List α) :
    pollAll ask xs = (xs.map fun x => (x, b), none) := by
  induction xs with
  | nil => rfl
  | cons x xs ih =>
    simp only [pollAll, h x, ih, List.map_cons]

theorem ask_of_mem_pollAll {ask : α → Except ε β} {xs : List α} {x : α} {b : β}
    (h : (x, b) ∈ (pollAll ask xs).1) : x ∈ xs ∧ ask x = .ok b := by
  induction xs with
  | nil => cases h
  | cons y xs ih =>
    unfold pollAll at h
    split at h
    · cases h
    · rename_i b' hy
      rcases List.mem_cons.1 h with heq | hmem
      · cases heq; exact ⟨List.mem_cons_self, hy⟩
      · exact ⟨List.mem_cons_of_mem y (ih hmem).1, (ih hmem).2⟩

end ShardedKvs
