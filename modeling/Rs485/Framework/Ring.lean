import Mathlib.Logic.Function.Basic
import Rs485.Framework.Mem

/-!
# Rings

The cells of a ring of `d` cells have numbers without end: number `i` is cell `i % d`.
`window d g r n` are the `n` cells from number `r` on, and `put d g w xs` stores `xs` from number `w` on.
What is stored is found again, and the `d` cells before its end are otherwise as they were
(`window_put`, `window_put_of_le`). A ring in an array is written and read in two parts,
one to the end of the array and one from its start (`storeList_wrapped`, `slice_wrapped`).
-/

namespace Rs485.Framework.Ring

variable {β : Type}

/-- The `n` cells from number `r` on. -/
def window (d : Nat) (g : Nat → β) (r n : Nat) : List β := (List.range n).map fun i => g ((r + i) % d)

/-- The ring after `xs` is stored from number `w` on. -/
def put (d : Nat) (g : Nat → β) (w : Nat) : List β → Nat → β
  | [] => g
  | x :: xs => put d (Function.update g (w % d) x) (w + 1) xs

variable {d r w n k : Nat} {g g' : Nat → β} {x : β} {xs ys : List β}

theorem mod_ne_mod {i j : Nat} (h : i < j) (hd : j < i + d) : i % d ≠ j % d := by
  intro heq
  have hzero := Nat.sub_mod_eq_zero_of_mod_eq heq.symm
  rw [Nat.mod_eq_of_lt (by omega)] at hzero
  omega

/-! ## Windows -/

@[simp] theorem length_window : (window d g r n).length = n := by
  rw [window, List.length_map, List.length_range]

@[simp] theorem window_zero : window d g r 0 = [] := rfl

theorem window_add (m n : Nat) : window d g r (m + n) = window d g r m ++ window d g (r + m) n := by
  rw [window, List.range_add, List.map_append, List.map_map, window, window]
  simp only [Function.comp_def, Nat.add_assoc]

theorem window_succ : window d g r (n + 1) = g (r % d) :: window d g (r + 1) n := by
  rw [Nat.add_comm, window_add]
  rfl

theorem window_concat : window d g r (n + 1) = window d g r n ++ [g ((r + n) % d)] := window_add n 1

theorem window_congr (h : ∀ i < n, g' ((r + i) % d) = g ((r + i) % d)) : window d g' r n = window d g r n :=
  List.map_congr_left fun i hi => h i (List.mem_range.mp hi)

/-- Numbers that are the same cell give the same window. -/
theorem window_mod {r' : Nat} (h : r' % d = r % d) : window d g r' n = window d g r n :=
  List.map_congr_left fun i _ => by rw [Nat.add_mod, h, ← Nat.add_mod]

theorem take_window (h : k ≤ n) : (window d g r n).take k = window d g r k := by
  obtain ⟨n, rfl⟩ := Nat.exists_eq_add_of_le h
  rw [window_add, List.take_left' length_window]

theorem drop_window (h : k ≤ n) : (window d g r n).drop k = window d g (r + k) (n - k) := by
  obtain ⟨n, rfl⟩ := Nat.exists_eq_add_of_le h
  rw [window_add, List.drop_left' length_window, Nat.add_sub_cancel_left]

/-! ## Stores -/

theorem put_append : put d g w (xs ++ ys) = put d (put d g w xs) (w + xs.length) ys := by
  induction xs generalizing g w with
  | nil => rfl
  | cons x xs ih =>
    rw [List.cons_append, put, ih, put, List.length_cons, Nat.add_right_comm, Nat.add_assoc]

theorem put_mod {w' : Nat} (h : w' % d = w % d) : put d g w' xs = put d g w xs := by
  induction xs generalizing g w w' with
  | nil => rfl
  | cons x xs ih =>
    rw [put, put, h]
    exact ih (by rw [Nat.add_mod, h, ← Nat.add_mod])

theorem put_of_ne {i : Nat} (h : ∀ j < xs.length, (w + j) % d ≠ i) : put d g w xs i = g i := by
  induction xs generalizing g w with
  | nil => rfl
  | cons x xs ih =>
    rw [put, ih fun j hj => by rw [Nat.add_assoc, Nat.add_comm 1]; exact h (j + 1) (Nat.succ_lt_succ hj)]
    exact Function.update_of_ne (h 0 (Nat.succ_pos _)).symm _ _

/-- The cells before `w` that are not stored to. -/
theorem window_put_of_le (h : r + n ≤ w) (hd : w + xs.length ≤ r + d) :
    window d (put d g w xs) r n = window d g r n :=
  window_congr fun i hi => put_of_ne fun j hj => (mod_ne_mod (by omega) (by omega)).symm

theorem window_put (h : xs.length ≤ d) : window d (put d g w xs) w xs.length = xs := by
  induction xs generalizing g w with
  | nil => rfl
  | cons x xs ih =>
    rw [List.length_cons] at h
    rw [put, List.length_cons, window_succ, ih (Nat.le_of_succ_le h), put_of_ne, Function.update_self]
    exact fun j hj => (mod_ne_mod (by omega) (by omega)).symm

/-- What is stored behind a window is behind it. -/
theorem window_put_append (hd : n + xs.length ≤ d) :
    window d (put d g (r + n) xs) r (n + xs.length) = window d g r n ++ xs := by
  rw [window_add, window_put_of_le (Nat.le_refl _) (by omega), window_put (by omega)]

/-! ## Arrays -/

variable {ι : Type} [DecidableEq ι] {m : Mem ι β} {p : Ptr ι}

/-- A store that does not go past the end of the array. -/
theorem storeList_linear (h : p.off + xs.length ≤ d) :
    (m.storeList p xs).data p.obj = put d (m.data p.obj) p.off xs := by
  induction xs generalizing m p with
  | nil => rfl
  | cons x xs ih =>
    rw [List.length_cons] at h
    have hlt : p.off % d = p.off := Nat.mod_eq_of_lt (by omega)
    rw [Mem.storeList, put, hlt, ← Mem.store_data_self]
    exact ih (p := p.add 1) (by rw [Ptr.add_off]; omega)

/-- A store in two parts. -/
theorem storeList_wrapped {o : ι} (hk : w + k = d) (h : xs.length ≤ k + d) :
    ((m.storeList ⟨o, w⟩ (xs.take k)).storeList ⟨o, 0⟩ (xs.drop k)).data o = put d (m.data o) w xs := by
  have htake : (xs.take k).length ≤ k := List.length_take_le _ _
  rw [storeList_linear (p := ⟨o, 0⟩) (d := d) (by rw [List.length_drop]; dsimp only; omega),
    storeList_linear (p := ⟨o, w⟩) (d := d) (by dsimp only; omega)]
  by_cases hle : k ≤ xs.length
  · have hput : put d (m.data o) w (xs.take k ++ xs.drop k) =
        put d (put d (m.data o) w (xs.take k)) (w + (xs.take k).length) (xs.drop k) := put_append
    rw [List.take_append_drop, List.length_take_of_le hle, hk] at hput
    rw [hput]
    exact put_mod (by rw [Nat.mod_self, Nat.zero_mod])
  · rw [List.take_of_length_le (by omega), List.drop_of_length_le (by omega), put]

omit [DecidableEq ι] in
theorem slice_linear (h : p.off + n ≤ d) : m.slice p n = window d (m.data p.obj) p.off n :=
  List.map_congr_left fun i hi => by
    rw [Nat.mod_eq_of_lt (by have := List.mem_range.mp hi; omega)]

omit [DecidableEq ι] in
/-- A read in two parts. -/
theorem slice_wrapped {o : ι} (hk : r + k = d) (hkn : k ≤ n) (h : n ≤ k + d) :
    m.slice ⟨o, r⟩ k ++ m.slice ⟨o, 0⟩ (n - k) = window d (m.data o) r n := by
  rw [slice_linear (p := ⟨o, r⟩) (d := d) (by dsimp only; omega),
    slice_linear (p := ⟨o, 0⟩) (d := d) (by dsimp only; omega)]
  obtain ⟨n, rfl⟩ := Nat.exists_eq_add_of_le hkn
  rw [window_add, Nat.add_sub_cancel_left, hk]
  exact congrArg _ (window_mod (by rw [Nat.mod_self, Nat.zero_mod]))

end Rs485.Framework.Ring
