import Rs485.Framework.Crc
import Rs485.Proof.Modbus.Framing

/-!
# The CRC of a frame

The tables of `mbcrc.c` are those of the CRC with the polynomial `x^16 + x^15 +
x^2 + 1`: `usMBCRC16` leaves what a register of 16 bits holds into which the
bits of the frame are shifted as the UART sends them (`call_usMBCRC16_bits`).
From this comes what the receiver refuses: every frame damaged in a burst of at
most 16 bits, in two bits, or in an odd number of them (`damaged_frame_refused`).
-/

namespace Rs485.Modbus

open Rs485.Framework

/-- `x^15 + x^2 + 1`, the coefficient of `x^0` in the top bit. -/
def crcPoly : USHORT := 0xA001

/-! ## The tables -/

/-- The tables hold what eight zeros make of a byte. -/
theorem aucCRC_eq (i : UCHAR) : aucCRCLo.getD i.toNat 0 ++ aucCRCHi.getD i.toNat 0 =
    crcBits crcPoly (i.setWidth 16) (List.replicate 8 false) := by
  revert i
  decide +kernel

theorem crcStep_bits (c : UCHAR × UCHAR) (b : UCHAR) :
    (crcStep c b).1 ++ (crcStep c b).2 = crcBits crcPoly (c.1 ++ c.2) ((List.range 8).map b.getLsbD) := by
  have hshift : (c.1 ++ c.2 : USHORT) >>> 8 = (0 : UCHAR) ++ c.1 := by
    refine BitVec.eq_of_getLsbD_eq fun i hi => ?_
    rw [BitVec.getLsbD_ushiftRight, BitVec.getLsbD_append, BitVec.getLsbD_append]
    by_cases h : i < 8
    · simp [h]
    · simp [h, BitVec.getLsbD_of_ge c.1 i (by omega)]
  have hlow (i : Nat) : ((c.2 ^^^ b).setWidth 16 : USHORT).getLsbD i =
      (decide (i < 8) && ((c.1 ++ c.2 : USHORT).getLsbD i ^^ ((List.range 8).map b.getLsbD).getD i false)) := by
    rw [BitVec.getLsbD_setWidth, BitVec.getLsbD_append]
    by_cases h : i < 8
    · simp [h, show i < 16 by omega]
    · simp [h, BitVec.getLsbD_of_ge c.2 i (by omega), BitVec.getLsbD_of_ge b i (by omega)]
  rw [crcBits_eq_shift (e := (c.2 ^^^ b).setWidth 16) (by decide) (by decide) (by simp) (by simpa using hlow),
    List.length_map, List.length_range, ← aucCRC_eq, hshift, BitVec.xor_append]
  simp only [crcStep]
  rw [show (0 : UCHAR) ^^^ aucCRCLo.getD (c.2 ^^^ b).toNat 0 = _ from BitVec.zero_xor]

/-- The CRC of a string of bytes is what is left of its bits. -/
theorem crc16_eq_crcBits (bs : List UCHAR) : crc16 bs = crcBits crcPoly 0xFFFF (wireBits bs) := by
  suffices h : ∀ c : UCHAR × UCHAR, (bs.foldl crcStep c).1 ++ (bs.foldl crcStep c).2 =
      crcBits crcPoly (c.1 ++ c.2) (wireBits bs) from h (0xFF, 0xFF)
  induction bs with
  | nil => exact fun c => rfl
  | cons b bs ih =>
    intro c
    rw [List.foldl_cons, ih, crcStep_bits, wireBits, wireBits, List.flatMap_cons, crcBits_append]

/-- The table-driven `usMBCRC16` computes the bitwise CRC of the bytes it walks over, and does not
change them. -/
theorem call_usMBCRC16_bits (p : Ptr Obj) (n : Nat) (s : Store) :
    call (usMBCRC16 p n) s =
      (crcBits crcPoly 0xFFFF (wireBits (s.mem.slice p n)), { s with mem := s.mem.touchN p n }) := by
  rw [call_usMBCRC16, crc16_eq_crcBits]

/-! ## Damaged frames -/

theorem avoidsOne_crcPoly : avoidsOne crcPoly 2040 crcPoly = true := by decide +kernel

theorem wireBits_xor {as bs : List UCHAR} (h : as.length = bs.length) :
    wireBits (List.zipWith (· ^^^ ·) as bs) = List.zipWith xor (wireBits as) (wireBits bs) := by
  induction as generalizing bs with
  | nil => rfl
  | cons a as ih =>
    obtain ⟨b, bs, rfl⟩ := List.exists_cons_of_length_pos (l := bs) (h ▸ Nat.succ_pos _)
    have hbits : (List.range 8).map (a ^^^ b).getLsbD =
        List.zipWith xor ((List.range 8).map a.getLsbD) ((List.range 8).map b.getLsbD) := by
      simp [List.zipWith_map]
    rw [List.zipWith_cons_cons, wireBits, List.flatMap_cons, ← wireBits, ih (Nat.succ.inj h), hbits,
      ← List.zipWith_append (by simp)]
    rfl

@[simp] theorem length_wireBits (bs : List UCHAR) : (wireBits bs).length = 8 * bs.length := by
  simp [wireBits, Nat.mul_comm]

/-- The CRC of a frame that is damaged by an error is not zero. -/
theorem crc16_damaged {bs e : List UCHAR} (h0 : crc16 bs = 0) (hlen : bs.length = e.length)
    (h255 : bs.length ≤ 255) (he : Detectable 16 (wireBits e)) : crc16 (List.zipWith (· ^^^ ·) bs e) ≠ 0 := by
  have hbits : (wireBits bs).length = (wireBits e).length := by rw [length_wireBits, length_wireBits, hlen]
  have hord : avoidsOne crcPoly (wireBits e).length crcPoly = true :=
    avoidsOne_mono avoidsOne_crcPoly (by rw [length_wireBits]; omega)
  intro h
  rw [crc16_eq_crcBits, wireBits_xor hlen, ← h0, crc16_eq_crcBits bs, crcBits_eq_iff hbits] at h
  exact crcBits_ne_zero (by decide) (by decide) (by decide) hord he h

end Rs485.Modbus
