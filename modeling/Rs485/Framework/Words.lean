import Mathlib.Init

/-!
# Words in bytes, high byte first

`beBytes v` are the two bytes of a word, and `words g n` those of the words
`g 0`, …, `g (n - 1)`; `wordByte g k` is byte `k` of them.
-/

namespace Rs485.Framework

/-- The bytes of a word. -/
def beBytes (v : BitVec 16) : List (BitVec 8) := [(v >>> 8).setWidth 8, v.setWidth 8]

@[simp] theorem length_beBytes (v : BitVec 16) : (beBytes v).length = 2 := rfl

/-- The bytes of a word, put together. -/
theorem beBytes_append (v : BitVec 16) :
    ((v >>> 8).setWidth 8 : BitVec 8) ++ (v.setWidth 8 : BitVec 8) = v := by
  apply BitVec.eq_of_getLsbD_eq
  intro i hi
  rw [BitVec.getLsbD_append, BitVec.getLsbD_setWidth, BitVec.getLsbD_setWidth, BitVec.getLsbD_ushiftRight]
  by_cases h : i < 8
  · simp [h]
  · simp [h, show i - 8 < 8 by omega, show 8 + (i - 8) = i by omega]

/-- The value of a word put together from two bytes. -/
theorem append_toNat (hi lo : BitVec 8) : (hi ++ lo : BitVec 16).toNat = 256 * hi.toNat + lo.toNat := by
  rw [BitVec.toNat_append, ← Nat.shiftLeft_add_eq_or_of_lt lo.isLt, Nat.shiftLeft_eq, Nat.mul_comm]

theorem append_eq_zero {hi lo : BitVec 8} : (hi ++ lo : BitVec 16) = 0 ↔ hi = 0 ∧ lo = 0 := by
  rw [← BitVec.toNat_inj, append_toNat, ← BitVec.toNat_inj, ← BitVec.toNat_inj]
  show 256 * hi.toNat + lo.toNat = 0 ↔ hi.toNat = 0 ∧ lo.toNat = 0
  omega

/-- The low byte and the high byte of a word, as shifts and masks select them. -/
theorem mask_append (hi lo : BitVec 8) : ((hi ++ lo : BitVec 16) &&& 0xFF).setWidth 8 = lo := by
  apply BitVec.eq_of_toNat_eq
  have hlo := lo.isLt
  rw [BitVec.toNat_setWidth, BitVec.toNat_and, append_toNat, show (0xFF : BitVec 16).toNat = 2 ^ 8 - 1 from rfl,
    Nat.and_two_pow_sub_one_eq_mod]
  omega

theorem shift_append (hi lo : BitVec 8) : ((hi ++ lo : BitVec 16) >>> 8).setWidth 8 = hi := by
  apply BitVec.eq_of_toNat_eq
  have hlo := lo.isLt
  have hhi := hi.isLt
  rw [BitVec.toNat_setWidth, BitVec.toNat_ushiftRight, append_toNat, Nat.shiftRight_eq_div_pow]
  omega

/-- Byte `k` of the words `g`. -/
def wordByte (g : Nat → BitVec 16) (k : Nat) : BitVec 8 :=
  if k % 2 = 0 then (g (k / 2) >>> 8).setWidth 8 else (g (k / 2)).setWidth 8

/-- The bytes of the first `n` words of `g`. -/
def words (g : Nat → BitVec 16) (n : Nat) : List (BitVec 8) := (List.range n).flatMap fun i => beBytes (g i)

section

variable (g : Nat → BitVec 16) (n : Nat)

theorem words_succ : words g (n + 1) = words g n ++ beBytes (g n) := by
  simp [words, List.range_succ]

@[simp] theorem length_words : (words g n).length = 2 * n := by
  induction n with
  | zero => rfl
  | succ n ih => rw [words_succ, List.length_append, ih, length_beBytes, Nat.mul_succ]

theorem map_wordByte : (List.range (2 * n)).map (wordByte g) = words g n := by
  induction n with
  | zero => rfl
  | succ n ih =>
    rw [Nat.mul_succ, List.range_succ, List.range_succ, List.map_append, List.map_append, ih, words_succ,
      List.append_assoc]
    have hodd : (2 * n + 1) % 2 = 1 := by omega
    have hdiv : (2 * n + 1) / 2 = n := by omega
    simp [wordByte, beBytes, hodd, hdiv]

variable {g n} in
theorem getD_words {k : Nat} (h : k < 2 * n) : (words g n).getD k 0 = wordByte g k := by
  rw [← map_wordByte, List.getD_eq_getElem?_getD, List.getElem?_map, List.getElem?_range h]
  rfl

theorem wordByte_append (i : Nat) : wordByte g (2 * i) ++ wordByte g (2 * i + 1) = g i := by
  rw [wordByte, wordByte, if_pos (by omega), if_neg (by omega), show 2 * i / 2 = i by omega,
    show (2 * i + 1) / 2 = i by omega, beBytes_append]

end

/-- The words of a list. -/
theorem flatMap_beBytes (vs : List (BitVec 16)) : vs.flatMap beBytes = words (vs.getD · 0) vs.length := by
  induction vs with
  | nil => rfl
  | cons v vs ih =>
    rw [List.flatMap_cons, ih, words, words, List.length_cons, List.range_succ_eq_map, List.flatMap_cons,
      List.flatMap_map]
    rfl

end Rs485.Framework
