import Mathlib.Logic.Function.Basic

/-!
# Overwriting a range of an array

`patch f a n g` is the array `f` with the `n` elements from index `a` on
replaced by `g 0`, `g 1`, … A loop that stores one element a round is a `patch`
(`patch_succ`), two adjacent writes are one (`patch_patch`), and a write
changes nothing exactly when every element it writes is already there
(`patch_eq_self`).
-/

namespace Rs485.Framework

variable {α : Type} (f : Nat → α) (a : Nat) {m n : Nat} (g : Nat → α)

/-- `f` with `n` elements from index `a` on replaced by those of `g`. -/
def patch (f : Nat → α) (a n : Nat) (g : Nat → α) (k : Nat) : α :=
  if a ≤ k ∧ k < a + n then g (k - a) else f k

theorem patch_inside {i : Nat} (h : i < n) : patch f a n g (a + i) = g i := by
  rw [patch, if_pos (by omega), Nat.add_sub_cancel_left]

theorem patch_outside {k : Nat} (h : k < a ∨ a + n ≤ k) : patch f a n g k = f k := by
  rw [patch, if_neg (by omega)]

@[simp] theorem patch_zero : patch f a 0 g = f := by
  funext k
  exact patch_outside f a g (by omega)

theorem patch_succ :
    patch f a (n + 1) g = patch (Function.update f a (g 0)) (a + 1) n fun i => g (i + 1) := by
  funext k
  simp only [patch, Function.update_apply]
  rcases Nat.lt_trichotomy k a with h | h | h
  · rw [if_neg (by omega), if_neg (by omega), if_neg (by omega)]
  · rw [if_pos (by omega), if_neg (by omega), if_pos h, h, Nat.sub_self]
  · rw [show k - (a + 1) + 1 = k - a by omega, if_neg (show k ≠ a by omega)]
    exact if_congr (by omega) rfl rfl

theorem patch_patch :
    patch (patch f a m g) (a + m) n (fun i => g (m + i)) = patch f a (m + n) g := by
  funext k
  simp only [patch]
  by_cases h : a + m ≤ k ∧ k < a + m + n
  · rw [if_pos h, if_pos (by omega), show m + (k - (a + m)) = k - a by omega]
  · rw [if_neg h]
    exact if_congr (by omega) rfl rfl

theorem patch_congr {f a} {g g' : Nat → α} (h : ∀ i < n, g i = g' i) :
    patch f a n g = patch f a n g' := by
  funext k
  simp only [patch]
  split
  · exact h _ (by omega)
  · rfl

/-- A write changes nothing exactly when what it writes is already there. -/
theorem patch_eq_self : patch f a n g = f ↔ ∀ i < n, g i = f (a + i) := by
  constructor
  · intro h i hi
    rw [← patch_inside f a g hi, h]
  · intro h
    funext k
    simp only [patch]
    split
    · rw [h _ (by omega), show a + (k - a) = k by omega]
    · rfl

end Rs485.Framework
