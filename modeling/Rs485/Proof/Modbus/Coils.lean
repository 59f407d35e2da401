import Rs485.Proof.Modbus.Effect

/-!
# Writing coils

A write of `n` coils sets them to the first `n` bits of the value buffer, but
`xMBUtilSetBits` or-s the value in without masking it. The neighbours behind
the range are left alone exactly when no bit of the last value byte above the
`n` is one where the coil is off (`exactCoilWrite_iff`).
-/

namespace Rs485.Modbus

open Rs485.Framework Rs485.Spec

/-- The write of `n` coils from the 0-based `a` on, with the values at `p`, succeeds, sets
these coils to the values, and changes no other coil. -/
def ExactCoilWrite (s : Store) (p : Ptr Obj) (a n : Nat) : Prop :=
  let r := call (eMBRegCoilsCB p (BitVec.ofNat 16 (a + 1)) (BitVec.ofNat 16 n) .regWrite) s
  r.1 = .enoerr ∧
    (∀ i < n, r.2.maps.coil (a + i) = (s.byte p (i / 8)).getLsbD (i % 8)) ∧
    ∀ k < sCoilNCoils, ¬ (a ≤ k ∧ k < a + n) → r.2.maps.coil k = s.maps.coil k

/-- A bit of the last value byte that is no value is zero, or falls on a coil that
is on, or behind the last coil. -/
def PaddingHarmless (s : Store) (p : Ptr Obj) (a n : Nat) : Prop :=
  ∀ i, n ≤ i → i < 8 * ((n + 7) / 8) → a + i < sCoilNCoils →
    (s.byte p (i / 8)).getLsbD (i % 8) = true → s.maps.coil (a + i) = true

section

variable {s : Store} {p : Ptr Obj} {a n : Nat}

/-- What the write does to the coils, whatever the padding. -/
theorem coilsWrite_coil (hp : p.obj ≠ .ucSCoilBuf) (h : a + n ≤ sCoilNCoils) (k : Nat) :
    (call (eMBRegCoilsCB p (BitVec.ofNat 16 (a + 1)) (BitVec.ofNat 16 n) .regWrite) s).2.maps.coil k =
      patch (spill s.maps.coil a n (bitAt (s.byte p))) a n (bitAt (s.byte p)) k := by
  obtain ⟨ha, hn, hin⟩ := bitRange h (by decide)
  rw [coilsWrite_maps _ _ _ _ hp, if_pos hin, ha, hn]
  rfl

/-- A write of coils is exact if and only if the padding of its value is harmless. -/
theorem exactCoilWrite_iff (hp : p.obj ≠ .ucSCoilBuf) (h : a + n ≤ sCoilNCoils) :
    ExactCoilWrite s p a n ↔ PaddingHarmless s p a n := by
  have hcoil := coilsWrite_coil (s := s) hp h
  constructor
  · rintro ⟨-, -, hother⟩ i hi hi' hk hbit
    rw [← hother (a + i) hk (by omega), hcoil, patch_outside _ _ _ (by omega), spill,
      if_pos (by omega), Nat.add_sub_cancel_left, bitAt, hbit, Bool.or_true]
  · intro hpad
    refine ⟨?_, fun i hi => ?_, fun k hk hout => ?_⟩
    · rw [coilsWrite_val, if_pos (bitRange h (by decide)).2.2]
    · rw [hcoil, patch_inside _ _ _ hi, bitAt]
    · rw [hcoil, patch_outside _ _ _ (by omega), spill]
      split
      · rename_i hs
        have := hpad (k - a) (by omega) (by omega) (by omega)
        rw [show a + (k - a) = k by omega] at this
        rw [Bool.or_eq_left_iff_imp]
        exact this
      · rfl

end

/-- Three coils from coil 3 on, with a value byte without padding bits. -/
theorem exactCoilWrite_iff_three :
    ExactCoilWrite (.ofFrame [1, 15, 0, 3, 0, 3, 1, 0x05]) ⟨.ucRTUBuf 0, 7⟩ 3 3 ↔
      PaddingHarmless (.ofFrame [1, 15, 0, 3, 0, 3, 1, 0x05]) ⟨.ucRTUBuf 0, 7⟩ 3 3 :=
  exactCoilWrite_iff (by decide) (by decide)

/-- With the value `FF`, a write of coil 0 alone switches coil 1 on. -/
theorem not_exactCoilWrite :
    ¬ ExactCoilWrite (.ofFrame [1, 15, 0, 0, 0, 1, 1, 0xFF]) ⟨.ucRTUBuf 0, 7⟩ 0 1 :=
  fun h => absurd (h.2.2 1 (by decide) (by decide)) (by decide)

end Rs485.Modbus
