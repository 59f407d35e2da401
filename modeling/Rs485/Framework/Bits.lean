import Rs485.Framework.Patch

/-!
# Bits packed in bytes

A sequence of bytes is a sequence of bits: bit `k` is bit `k % 8` of byte
`k / 8`. Two neighbouring bytes, the lower first, are a 16-bit word, through
which a field of up to eight bits at any position can be read (`wordAt_getLsbD`)
and written (`bitAt_storeWord`). A byte stored is eight bits overwritten
(`bitAt_update`).
-/

namespace Rs485.Framework

/-- Bit `k` of a sequence of bytes. -/
def bitAt (d : Nat → BitVec 8) (k : Nat) : Bool := (d (k / 8)).getLsbD (k % 8)

/-- The word of the bytes `i` and `i + 1`. -/
def wordAt (d : Nat → BitVec 8) (i : Nat) : BitVec 16 :=
  (d i).setWidth 16 ||| (d (i + 1)).setWidth 16 <<< 8

/-- The bytes after the word `w` is stored in the bytes `i` and `i + 1`. -/
def storeWord (d : Nat → BitVec 8) (i : Nat) (w : BitVec 16) (n : Nat) : BitVec 8 :=
  if n = i + 1 then (w >>> 8).setWidth 8 else if n = i then w.setWidth 8 else d n

theorem wordAt_getLsbD (d : Nat → BitVec 8) (i : Nat) {j : Nat} (hj : j < 16) :
    (wordAt d i).getLsbD j = bitAt d (8 * i + j) := by
  simp only [wordAt, bitAt, BitVec.getLsbD_or, BitVec.getLsbD_setWidth, BitVec.getLsbD_shiftLeft,
    hj, decide_true, Bool.true_and]
  by_cases h : j < 8
  · rw [show (8 * i + j) / 8 = i by omega, show (8 * i + j) % 8 = j by omega]
    simp [h]
  · rw [show (8 * i + j) / 8 = i + 1 by omega, show (8 * i + j) % 8 = j - 8 by omega,
      BitVec.getLsbD_of_ge (d i) j (by omega)]
    simp [h, show j - 8 < 16 by omega]

theorem bitAt_storeWord (d : Nat → BitVec 8) (i : Nat) (w : BitVec 16) (k : Nat) :
    bitAt (storeWord d i w) k =
      if 8 * i ≤ k ∧ k < 8 * i + 16 then w.getLsbD (k - 8 * i) else bitAt d k := by
  simp only [bitAt, storeWord]
  have hk := Nat.mod_lt k (by decide : 8 > 0)
  by_cases h₁ : k / 8 = i + 1
  · rw [if_pos h₁, if_pos (by omega), BitVec.getLsbD_setWidth, BitVec.getLsbD_ushiftRight,
      show k - 8 * i = 8 + k % 8 by omega]
    simp [hk]
  · by_cases h₀ : k / 8 = i
    · rw [if_neg h₁, if_pos h₀, if_pos (by omega), BitVec.getLsbD_setWidth,
        show k - 8 * i = k % 8 by omega]
      simp [hk]
    · rw [if_neg h₁, if_neg h₀, if_neg (by omega)]

theorem bitAt_update (d : Nat → BitVec 8) (i : Nat) (v : BitVec 8) :
    bitAt (Function.update d i v) = patch (bitAt d) (8 * i) 8 v.getLsbD := by
  funext k
  rw [bitAt, Function.update_apply, patch]
  by_cases h : k / 8 = i
  · rw [if_pos h, if_pos (by omega), show k - 8 * i = k % 8 by omega]
  · rw [if_neg h, if_neg (by omega), bitAt]

/-- Two shifts, there and back, keep the low `r` bits of a byte. -/
theorem shifts_getLsbD (v : BitVec 8) {r : Nat} (hr : r ≤ 8) (j : Nat) :
    ((v <<< (8 - r)) >>> (8 - r)).getLsbD j = (decide (j < r) && v.getLsbD j) := by
  rw [BitVec.getLsbD_ushiftRight, BitVec.getLsbD_shiftLeft, Nat.add_sub_cancel_left,
    decide_eq_false (show ¬ (8 - r + j < 8 - r) by omega), Bool.not_false, Bool.and_true]
  congr 1
  exact decide_eq_decide.mpr (by omega)

/-- Bit `j` of the mask of the low `n` bits, moved up by `s`. -/
theorem mask_getLsbD (n s : Nat) {j : Nat} (hn : n ≤ 8) (hj : j < 16) :
    ((((1 : BitVec 16) <<< n) - 1) <<< s).getLsbD j = decide (s ≤ j ∧ j < s + n) := by
  have hm : ((1 : BitVec 16) <<< n) - 1 = BitVec.ofNat 16 (2 ^ n - 1) := by
    have : ∀ n ≤ 8, ((1 : BitVec 16) <<< n) - 1 = BitVec.ofNat 16 (2 ^ n - 1) := by decide
    exact this n hn
  rw [hm, BitVec.getLsbD_shiftLeft, BitVec.getLsbD_ofNat, Nat.testBit_two_pow_sub_one]
  by_cases h : j < s
  · simp [h, Nat.not_le.mpr h]
  · rw [decide_eq_true hj, decide_eq_true (show j - s < 16 by omega), decide_eq_false h]
    simp only [Bool.not_false, Bool.true_and, decide_eq_decide]
    omega

end Rs485.Framework
