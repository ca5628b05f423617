import Mathlib.Data.Nat.Notation
import Mathlib.Logic.Function.Basic
import Mathlib.Tactic.Common

/-!
# Names with a decimal index

Numbered resources get names such as `p-12-q`, made from a fixed text and the decimal form of an
index.  The index can be read off the name, and so can the text before its dash, whatever that text
is: the decimal form has no dash of its own, so its dash is the last one.

* `toString_injective` : distinct numbers have distinct decimal forms.
* `indexed_injective` : and so have the names around them.
* `numbered_inj` : a name that ends in a dash and a number gives both parts back.
-/

namespace ShardedKvs

theorem toString_injective : Function.Injective (toString : ℕ → String) := by
  intro m n h
  have hd : Nat.toDigits 10 m = Nat.toDigits 10 n := by
    rw [← Nat.toList_repr, ← Nat.toList_repr]
    exact congrArg String.toList h
  rw [← Nat.ofDigitChars_ten_toDigits (n := m), hd, Nat.ofDigitChars_ten_toDigits]

/-- A name with an index between two fixed texts. -/
theorem indexed_injective (p q : String) :
    Function.Injective fun i : ℕ => p ++ toString i ++ q := by
  intro m n h
  rw [String.append_left_inj, String.append_right_inj] at h
  exact toString_injective h

/-- A list is split at the last occurrence of an element in one way only. -/
theorem append_cons_inj_of_last {α : Type*} {p q s t : List α} {c : α} (hs : c ∉ s) (ht : c ∉ t)
    (h : p ++ c :: s = q ++ c :: t) : p = q ∧ s = t := by
  rcases List.append_eq_append_iff.1 h with ⟨m, rfl, hm⟩ | ⟨m, rfl, hm⟩
  · cases m with
    | nil => exact ⟨(List.append_nil p).symm, (List.cons.inj hm).2⟩
    | cons d m =>
      -- the longer prefix would have to end inside `s`
      rw [List.cons_append] at hm
      rw [(List.cons.inj hm).2] at hs
      exact absurd (List.mem_append_right m List.mem_cons_self) hs
  · cases m with
    | nil => exact ⟨List.append_nil q, (List.cons.inj hm).2.symm⟩
    | cons d m =>
      rw [List.cons_append] at hm
      rw [(List.cons.inj hm).2] at ht
      exact absurd (List.mem_append_right m List.mem_cons_self) ht

theorem dash_notMem_toString (n : ℕ) : '-' ∉ (toString n).toList := by
  intro h
  have hd : '-' ∈ Nat.toDigits 10 n := Nat.toList_repr ▸ h
  exact absurd (Nat.isDigit_of_mem_toDigits (by decide) (by decide) hd) (by decide)

/-- **A numbered name gives back its text and its number.** -/
theorem numbered_inj {p q : String} {m n : ℕ} :
    p ++ "-" ++ toString m = q ++ "-" ++ toString n ↔ p = q ∧ m = n := by
  constructor
  · intro h
    have hlist : p.toList ++ '-' :: (toString m).toList =
        q.toList ++ '-' :: (toString n).toList := by
      have := congrArg String.toList h
      rwa [String.toList_append, String.toList_append, String.toList_append, String.toList_append,
        List.append_assoc, List.append_assoc] at this
    obtain ⟨hp, hn⟩ := append_cons_inj_of_last (dash_notMem_toString m) (dash_notMem_toString n)
      hlist
    exact ⟨String.toList_inj.1 hp, toString_injective (String.toList_inj.1 hn)⟩
  · rintro ⟨rfl, rfl⟩
    rfl

end ShardedKvs
