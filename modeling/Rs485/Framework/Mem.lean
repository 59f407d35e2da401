import Mathlib.Logic.Function.Basic
import Rs485.Framework.Call

/-!
# Memory: objects, pointers and the accesses made

A `Mem ι β` holds the objects of a program (named by `ι`), each a sequence of
cells of type `β`, and the list of the cells read or written so far. C does
not stop at the end of an array, so an object has a cell at every index; that
an access stays inside the array is the statement `Within` about the list of
accesses.
-/

namespace Rs485.Framework

/-- A pointer: an object and an index into it. -/
structure Ptr (ι : Type) where
  obj : ι
  off : Nat
deriving DecidableEq, Repr

namespace Ptr

variable {ι : Type}

/-- Pointer arithmetic. -/
def add (p : Ptr ι) (n : Nat) : Ptr ι := { p with off := p.off + n }

/-- The pointer one cell before. -/
def pred (p : Ptr ι) : Ptr ι := { p with off := p.off - 1 }

@[simp] theorem pred_obj (p : Ptr ι) : p.pred.obj = p.obj := rfl
@[simp] theorem pred_off (p : Ptr ι) : p.pred.off = p.off - 1 := rfl
@[simp] theorem add_obj (p : Ptr ι) (n : Nat) : (p.add n).obj = p.obj := rfl
@[simp] theorem add_off (p : Ptr ι) (n : Nat) : (p.add n).off = p.off + n := rfl

@[simp] theorem add_zero (p : Ptr ι) : p.add 0 = p := rfl

theorem pred_add_succ (p : Ptr ι) (n : Nat) : (p.add (n + 1)).pred = p.add n := rfl

theorem add_add (p : Ptr ι) (m n : Nat) : (p.add m).add n = p.add (m + n) := by
  simp [add, Nat.add_assoc]

end Ptr

/-- The contents of the objects, and every cell accessed so far (latest first). -/
structure Mem (ι β : Type) where
  data : ι → Nat → β
  log : List (ι × Nat)

namespace Mem

variable {ι β : Type} [DecidableEq ι]

/-- The access of a read of `p`. -/
def touch (m : Mem ι β) (p : Ptr ι) : Mem ι β := { m with log := (p.obj, p.off) :: m.log }

/-- The memory after `v` is stored at `p`. -/
def store (m : Mem ι β) (p : Ptr ι) (v : β) : Mem ι β where
  data o i := if o = p.obj ∧ i = p.off then v else m.data o i
  log := (p.obj, p.off) :: m.log

omit [DecidableEq ι] in
@[simp] theorem touch_data (m : Mem ι β) (p : Ptr ι) : (m.touch p).data = m.data := rfl

theorem store_data (m : Mem ι β) (p : Ptr ι) (v : β) (o : ι) (i : Nat) :
    (m.store p v).data o i = if o = p.obj ∧ i = p.off then v else m.data o i := rfl

/-- The object stored to, as a whole. -/
theorem store_data_self (m : Mem ι β) (p : Ptr ι) (v : β) :
    (m.store p v).data p.obj = Function.update (m.data p.obj) p.off v := by
  funext i
  simp only [store_data, Function.update_apply, true_and]

theorem store_data_obj (m : Mem ι β) {p : Ptr ι} (v : β) {o : ι} (h : o ≠ p.obj) :
    (m.store p v).data o = m.data o := by
  funext i
  simp [store_data, h]

/-- The accesses of a read of the `n` cells from `p` on. -/
def touchN (m : Mem ι β) (p : Ptr ι) : Nat → Mem ι β
  | 0 => m
  | n + 1 => (m.touch p).touchN (p.add 1) n

omit [DecidableEq ι] in
@[simp] theorem touchN_data (m : Mem ι β) (p : Ptr ι) (n : Nat) : (m.touchN p n).data = m.data := by
  induction n generalizing m p with
  | zero => rfl
  | succ n ih => exact ih _ _

/-- Every access to the object `o` so far was below index `n`. -/
def Within (m : Mem ι β) (o : ι) (n : Nat) : Prop := ∀ i, (o, i) ∈ m.log → i < n

omit [DecidableEq ι] in
theorem within_touch {m : Mem ι β} {p : Ptr ι} {o : ι} {n : Nat} :
    (m.touch p).Within o n ↔ (p.obj = o → p.off < n) ∧ m.Within o n := by
  constructor
  · intro h
    refine ⟨fun e => h _ (by simp [touch, e]), fun i hi => h i (List.mem_cons_of_mem _ hi)⟩
  · rintro ⟨hp, hm⟩ i hi
    rcases List.mem_cons.mp hi with e | hi
    · cases e; exact hp rfl
    · exact hm i hi

theorem within_store {m : Mem ι β} {p : Ptr ι} {v : β} {o : ι} {n : Nat} :
    (m.store p v).Within o n ↔ (p.obj = o → p.off < n) ∧ m.Within o n :=
  within_touch (m := m)

omit [DecidableEq ι] in
theorem within_touchN {m : Mem ι β} {p : Ptr ι} {o : ι} {k n : Nat} (hp : p.obj = o → p.off + k ≤ n)
    (hm : m.Within o n) : (m.touchN p k).Within o n := by
  induction k generalizing m p with
  | zero => exact hm
  | succ k ih =>
    refine ih (fun h => ?_) (within_touch.mpr ⟨fun h => ?_, hm⟩)
    · have := hp h
      rw [Ptr.add_off]
      omega
    · have := hp h
      omega

/-- The `n` cells from `p` on. -/
def slice (m : Mem ι β) (p : Ptr ι) (n : Nat) : List β :=
  (List.range n).map fun i => m.data p.obj (p.off + i)

omit [DecidableEq ι] in
@[simp] theorem length_slice (m : Mem ι β) (p : Ptr ι) (n : Nat) : (m.slice p n).length = n := by
  simp [slice]

omit [DecidableEq ι] in
@[simp] theorem slice_touchN (m : Mem ι β) (p q : Ptr ι) (k n : Nat) :
    (m.touchN q k).slice p n = m.slice p n := by
  simp [slice]

omit [DecidableEq ι] in
theorem slice_congr {m m' : Mem ι β} {p : Ptr ι} {n : Nat}
    (h : ∀ i < n, m'.data p.obj (p.off + i) = m.data p.obj (p.off + i)) :
    m'.slice p n = m.slice p n :=
  List.map_congr_left fun i hi => h i (List.mem_range.mp hi)

/-- A store outside a slice leaves it alone. -/
theorem slice_store {m : Mem ι β} {p q : Ptr ι} {v : β} {n : Nat}
    (h : q.obj = p.obj → q.off < p.off ∨ p.off + n ≤ q.off) :
    (m.store q v).slice p n = m.slice p n :=
  slice_congr fun i hi => if_neg fun ⟨ho, hoff⟩ => by have := h ho.symm; omega

omit [DecidableEq ι] in
/-- The first cell of a slice, and the rest. -/
theorem slice_cons (m : Mem ι β) (p : Ptr ι) (n : Nat) :
    m.slice p (n + 1) = m.data p.obj p.off :: m.slice (p.add 1) n := by
  simp only [slice, List.range_succ_eq_map, List.map_cons, List.map_map, Nat.add_zero]
  congr 1
  refine List.map_congr_left fun i _ => ?_
  simp only [Function.comp_apply, Ptr.add_obj, Ptr.add_off, Nat.add_assoc, Nat.add_comm 1 i]

omit [DecidableEq ι] in
theorem slice_succ (m : Mem ι β) (p : Ptr ι) (n : Nat) :
    m.slice p (n + 1) = m.slice p n ++ [m.data p.obj (p.off + n)] := by
  simp [slice, List.range_succ]

omit [DecidableEq ι] in
theorem take_slice (m : Mem ι β) (p : Ptr ι) {k n : Nat} (h : k ≤ n) :
    (m.slice p n).take k = m.slice p k := by
  rw [slice, ← List.map_take, List.take_range, Nat.min_eq_left h, slice]

/-- The cells from `p` on hold `xs`. -/
def Holds (m : Mem ι β) (p : Ptr ι) (xs : List β) : Prop := m.slice p xs.length = xs

section

variable {m m' : Mem ι β} {p : Ptr ι} {x : β} {xs ys : List β}

omit [DecidableEq ι]

theorem holds_nil : m.Holds p [] := rfl

theorem holds_cons : m.Holds p (x :: xs) ↔ m.data p.obj p.off = x ∧ m.Holds (p.add 1) xs := by
  rw [Holds, List.length_cons, slice_cons, List.cons.injEq, Holds]

theorem holds_append : m.Holds p (xs ++ ys) ↔ m.Holds p xs ∧ m.Holds (p.add xs.length) ys := by
  induction xs generalizing p with
  | nil => exact (and_iff_right holds_nil).symm
  | cons x xs ih =>
    rw [List.cons_append, holds_cons, holds_cons, ih, Ptr.add_add, and_assoc, List.length_cons, Nat.add_comm 1]

theorem Holds.congr (h : m.Holds p xs)
    (hm : ∀ i, p.off ≤ i → i < p.off + xs.length → m'.data p.obj i = m.data p.obj i) : m'.Holds p xs :=
  (slice_congr fun _ hi => hm _ (Nat.le_add_right _ _) (Nat.add_lt_add_left hi _)).trans h

end

/-! ## Copies -/

/-- The memory after the `n` cells from `src` on were copied to `dst`. -/
def copy (m : Mem ι β) (dst src : Ptr ι) : Nat → Mem ι β
  | 0 => m
  | n + 1 =>
    let m := m.copy dst src n
    (m.touch (src.add n)).store (dst.add n) (m.data src.obj (src.off + n))

section

variable {m : Mem ι β} {dst src p : Ptr ι} {n : Nat}

/-- A copy from one object to another. -/
theorem copy_data (h : src.obj ≠ dst.obj) (o : ι) (i : Nat) :
    (m.copy dst src n).data o i =
      if o = dst.obj ∧ dst.off ≤ i ∧ i < dst.off + n then m.data src.obj (src.off + (i - dst.off))
      else m.data o i := by
  induction n generalizing o i with
  | zero => exact (if_neg (by omega)).symm
  | succ n ih =>
    have hsrc := ih src.obj (src.off + n)
    rw [if_neg fun h' => h h'.1] at hsrc
    rw [copy, store_data, touch_data, hsrc, ih, Ptr.add_obj, Ptr.add_off]
    by_cases hi : i = dst.off + n
    · subst hi
      by_cases ho : o = dst.obj <;> simp [ho]
    · rw [if_neg fun h' => hi h'.2]
      refine if_congr ?_ rfl rfl
      refine and_congr_right fun _ => and_congr_right fun _ => ?_
      omega

theorem copy_data_of_ne (h : src.obj ≠ dst.obj) {o : ι} (ho : o ≠ dst.obj) (i : Nat) :
    (m.copy dst src n).data o i = m.data o i := by
  rw [copy_data h, if_neg fun h' => ho h'.1]

/-- The cells copied. -/
theorem slice_copy (h : src.obj ≠ dst.obj) : (m.copy dst src n).slice dst n = m.slice src n := by
  refine List.map_congr_left fun i hi => ?_
  have hi := List.mem_range.mp hi
  rw [copy_data h, if_pos ⟨rfl, by omega, by omega⟩, Nat.add_sub_cancel_left]

/-- The cells of another place. -/
theorem slice_copy_of_disjoint (h : src.obj ≠ dst.obj) {k : Nat}
    (hp : p.obj = dst.obj → p.off + k ≤ dst.off ∨ dst.off + n ≤ p.off) :
    (m.copy dst src n).slice p k = m.slice p k := by
  refine slice_congr fun i hi => ?_
  rw [copy_data h, if_neg]
  rintro ⟨ho, hle, hlt⟩
  have := hp ho
  omega

theorem within_copy {o : ι} {k : Nat} (hdst : dst.obj = o → dst.off + n ≤ k)
    (hsrc : src.obj = o → src.off + n ≤ k) (hm : m.Within o k) : (m.copy dst src n).Within o k := by
  induction n with
  | zero => exact hm
  | succ n ih =>
    have ih := ih (fun h => by have := hdst h; omega) fun h => by have := hsrc h; omega
    refine within_store.mpr ⟨fun h => ?_, within_touch.mpr ⟨fun h => ?_, ih⟩⟩
    · have := hdst h
      rw [Ptr.add_off]
      omega
    · have := hsrc h
      rw [Ptr.add_off]
      omega

end

/-! ## Lists -/

/-- The memory after the values were stored from `p` on. -/
def storeList (m : Mem ι β) (p : Ptr ι) : List β → Mem ι β
  | [] => m
  | v :: vs => (m.store p v).storeList (p.add 1) vs

section

variable {m : Mem ι β} {p : Ptr ι} {vs : List β}

theorem storeList_concat (v : β) : m.storeList p (vs ++ [v]) = (m.storeList p vs).store (p.add vs.length) v := by
  induction vs generalizing m p with
  | nil => rfl
  | cons w vs ih =>
    rw [List.cons_append, storeList, ih, storeList, Ptr.add_add, List.length_cons, Nat.add_comm 1]

/-- A slice of cells that are not stored to. -/
theorem slice_storeList_of_disjoint {q : Ptr ι} {n : Nat}
    (h : p.obj = q.obj → p.off + vs.length ≤ q.off ∨ q.off + n ≤ p.off) :
    (m.storeList p vs).slice q n = m.slice q n := by
  induction vs generalizing m p with
  | nil => rfl
  | cons v vs ih =>
    rw [List.length_cons] at h
    rw [storeList, ih fun ho => ?_]
    · refine slice_store fun ho => ?_
      have := h ho
      omega
    · have := h ho
      rw [Ptr.add_off]
      omega

/-- What was stored. -/
theorem slice_storeList : (m.storeList p vs).slice p vs.length = vs := by
  induction vs generalizing m p with
  | nil => rfl
  | cons v vs ih =>
    rw [storeList, List.length_cons, slice_cons, ih]
    -- the cells behind it are stored later
    have hfirst : ((m.store p v).storeList (p.add 1) vs).slice p 1 = (m.store p v).slice p 1 :=
      slice_storeList_of_disjoint fun _ => .inr (Nat.le_refl _)
    rw [slice_cons, slice_cons, store_data, if_pos ⟨rfl, rfl⟩] at hfirst
    rw [List.head_eq_of_cons_eq hfirst]

omit [DecidableEq ι] in
theorem touchN_succ (n : Nat) : m.touchN p (n + 1) = (m.touchN p n).touch (p.add n) := by
  induction n generalizing m p with
  | zero => rfl
  | succ n ih => rw [touchN, ih, touchN, Ptr.add_add, Nat.add_comm 1]

theorem within_storeList {o : ι} {n : Nat} (hp : p.obj = o → p.off + vs.length ≤ n) (hm : m.Within o n) :
    (m.storeList p vs).Within o n := by
  induction vs generalizing m p with
  | nil => exact hm
  | cons v vs ih =>
    simp only [List.length_cons] at hp
    refine ih (fun h => ?_) (within_store.mpr ⟨fun h => ?_, hm⟩)
    · have := hp h
      rw [Ptr.add_off]
      omega
    · have := hp h
      omega

end

end Mem

end Rs485.Framework
