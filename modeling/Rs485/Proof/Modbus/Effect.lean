import Rs485.Impl.Modbus.Regs
import Rs485.Proof.Modbus.Store

/-!
# What the register callbacks do to the maps

Writing registers is a `Maps.writeHolding` of the big-endian words of the
buffer. Writing bits goes through words of two bytes (`bitAt_setBits`): a chunk
of `n` bits is stored, and where the value has ones above them, these are or-ed
into the bits behind the chunk.
-/

namespace Rs485.Modbus

open Rs485.Framework Rs485.Spec

/-! ## Bit fields -/

section SetBits

variable (o : Obj) (ix off n : Nat) (v : UCHAR) (h : n ≤ 8) (s : Store)

/-- The word that `xMBUtilSetBits` stores. -/
def setBitsWord : USHORT :=
  wordAt (s.mem.data o) (ix + off / 8) &&&
      ~~~((((1 : USHORT) <<< n) - 1) <<< (off - off / 8 * 8)) |||
    v.setWidth 16 <<< (off - off / 8 * 8)

theorem setBits_reg : (call (xMBUtilSetBits ⟨o, ix⟩ off n v h) s).2.reg = s.reg := rfl

theorem setBits_data : (call (xMBUtilSetBits ⟨o, ix⟩ off n v h) s).2.mem.data =
    Function.update s.mem.data o
      (storeWord (s.mem.data o) (ix + off / 8) (setBitsWord o ix off n v s)) := by
  funext o' i
  by_cases ho : o' = o
  · subst ho
    rw [Function.update_self, storeWord]
    simp only [xMBUtilSetBits, call_bind, call_rd, call_wr, Mem.store_data, Ptr.add_obj,
      Ptr.add_off, true_and, Nat.add_assoc]
    rfl
  · rw [Function.update_of_ne ho]
    simp [xMBUtilSetBits, Mem.store_data, ho]

theorem setBits_data_of_ne {o' : Obj} (ho : o' ≠ o) :
    (call (xMBUtilSetBits ⟨o, ix⟩ off n v h) s).2.mem.data o' = s.mem.data o' := by
  rw [setBits_data, Function.update_of_ne ho]

include h in
/-- Bit `j` of the word stored: the value where it has a one, and else what was
there unless the bit belongs to the chunk. -/
theorem setBitsWord_getLsbD {j : Nat} (hj : j < 16) : (setBitsWord o ix off n v s).getLsbD j =
    (bitAt (s.mem.data o) (8 * (ix + off / 8) + j) &&
        !decide (off % 8 ≤ j ∧ j < off % 8 + n) ||
      decide (off % 8 ≤ j) && v.getLsbD (j - off % 8)) := by
  rw [setBitsWord, show off - off / 8 * 8 = off % 8 by omega]
  simp only [BitVec.getLsbD_or, BitVec.getLsbD_and, BitVec.getLsbD_not, hj, decide_true,
    Bool.true_and, mask_getLsbD _ _ h hj, wordAt_getLsbD _ _ hj, BitVec.getLsbD_shiftLeft,
    BitVec.getLsbD_setWidth]
  by_cases hs : j < off % 8
  · simp [hs, Nat.not_le.mpr hs]
  · simp [hs, Nat.not_lt.mp hs, show j - off % 8 < 16 by omega]

/-- The bits after `xMBUtilSetBits`. -/
theorem bitAt_setBits (k : Nat) :
    bitAt ((call (xMBUtilSetBits ⟨o, ix⟩ off n v h) s).2.mem.data o) k =
      if 8 * ix + off ≤ k ∧ k < 8 * ix + off + 8 then
        bitAt (s.mem.data o) k && !decide (k < 8 * ix + off + n) ||
          v.getLsbD (k - (8 * ix + off))
      else bitAt (s.mem.data o) k := by
  rw [setBits_data, Function.update_self, bitAt_storeWord]
  by_cases hw : 8 * (ix + off / 8) ≤ k ∧ k < 8 * (ix + off / 8) + 16
  · rw [if_pos hw, setBitsWord_getLsbD _ _ _ _ _ h _ (by omega),
      show 8 * (ix + off / 8) + (k - 8 * (ix + off / 8)) = k by omega]
    by_cases hc : 8 * ix + off ≤ k ∧ k < 8 * ix + off + 8
    · rw [if_pos hc, show k - 8 * (ix + off / 8) - off % 8 = k - (8 * ix + off) by omega,
        decide_eq_true (show off % 8 ≤ k - 8 * (ix + off / 8) by omega), Bool.true_and]
      congr 3
      exact decide_eq_decide.mpr (by omega)
    · rw [if_neg hc, decide_eq_false (show ¬ (off % 8 ≤ k - 8 * (ix + off / 8) ∧
        k - 8 * (ix + off / 8) < off % 8 + n) by omega)]
      rw [Bool.not_false, Bool.and_true, Bool.or_eq_left_iff_imp]
      intro hb
      rw [Bool.and_eq_true, decide_eq_true_eq] at hb
      rw [BitVec.getLsbD_of_ge _ _ (by omega)] at hb
      cases hb.2
  · rw [if_neg hw, if_neg (by omega)]

end SetBits

section WriteBitsLoop

variable (o : Obj) (off n : Nat)

theorem writeBitsLoop_val (p : Ptr Obj) (ix : Nat) (s : Store) :
    (call (writeBitsLoop o off n p ix) s).1 = (p.add n, ix + n) := by
  induction n generalizing p ix s with
  | zero => rfl
  | succ n ih =>
    rw [writeBitsLoop, call_bind, call_bind, ih, Ptr.add_add, Nat.add_assoc, Nat.add_comm 1 n]

theorem writeBitsLoop_reg (p : Ptr Obj) (ix : Nat) (s : Store) :
    (call (writeBitsLoop o off n p ix) s).2.reg = s.reg := by
  induction n generalizing p ix s with
  | zero => rfl
  | succ n ih =>
    rw [writeBitsLoop, call_bind, call_bind, ih, setBits_reg]
    rfl

theorem writeBitsLoop_data_of_ne {o' : Obj} (ho : o' ≠ o) (p : Ptr Obj) (ix : Nat) (s : Store) :
    (call (writeBitsLoop o off n p ix) s).2.mem.data o' = s.mem.data o' := by
  induction n generalizing p ix s with
  | zero => rfl
  | succ n ih =>
    rw [writeBitsLoop, call_bind, call_bind, ih, setBits_data_of_ne _ _ _ _ _ _ _ ho]
    rfl

/-- The bits after the loop over the whole bytes of the buffer. -/
theorem bitAt_writeBitsLoop {p : Ptr Obj} (hp : p.obj ≠ o) (ix : Nat) (s : Store) :
    bitAt ((call (writeBitsLoop o off n p ix) s).2.mem.data o) =
      patch (bitAt (s.mem.data o)) (8 * ix + off) (8 * n) (bitAt (s.byte p)) := by
  induction n generalizing p ix s with
  | zero => rw [Nat.mul_zero, patch_zero]; rfl
  | succ n ih =>
    rw [writeBitsLoop, call_bind, call_bind, ih (p := p.add 1) hp]
    have hone : bitAt ((call (xMBUtilSetBits ⟨o, ix⟩ off 8 (call (rd p) s).1 (Nat.le_refl 8))
        (call (rd p) s).2).2.mem.data o) =
        patch (bitAt (s.mem.data o)) (8 * ix + off) 8 (bitAt (s.byte p)) := by
      funext k
      rw [bitAt_setBits, patch]
      split
      · rename_i hk
        rw [decide_eq_true hk.2, Bool.not_true, Bool.and_false, Bool.false_or, bitAt,
          show (k - (8 * ix + off)) / 8 = 0 by omega, Nat.mod_eq_of_lt (by omega)]
        rfl
      · rfl
    have hrest : bitAt ((call (xMBUtilSetBits ⟨o, ix⟩ off 8 (call (rd p) s).1 (Nat.le_refl 8))
        (call (rd p) s).2).2.byte (p.add 1)) = fun i => bitAt (s.byte p) (8 + i) := by
      funext i
      rw [bitAt, bitAt, Store.byte_add, Store.byte_congr (setBits_data_of_ne _ _ _ _ _ _ _ hp),
        show (8 + i) / 8 = 1 + i / 8 by omega, show (8 + i) % 8 = i % 8 by omega]
      rfl
    rw [hone, hrest, show 8 * (ix + 1) + off = 8 * ix + off + 8 by omega, patch_patch,
      show 8 + 8 * n = 8 * (n + 1) by omega]

end WriteBitsLoop

/-- The bits of `g` between bit `n` and the end of its last byte, or-ed into `f` at `a`. -/
def spill (f : Nat → Bool) (a n : Nat) (g : Nat → Bool) (k : Nat) : Bool :=
  if a + n ≤ k ∧ k < a + 8 * ((n + 7) / 8) then f k || g (k - a) else f k

theorem spill_of_mod_eq_zero (f : Nat → Bool) (a : Nat) {n : Nat} (g : Nat → Bool)
    (h : n % 8 = 0) : spill f a n g = f :=
  funext fun _ => if_neg (by omega)

section WriteBits

variable (o : Obj) (a n : USHORT) {p : Ptr Obj} (s : Store)

/-- The store after the loop of `writeBits`. -/
def afterLoop (p : Ptr Obj) : Store :=
  (call (writeBitsLoop o (a.toNat % 8) (n.toNat / 8) p (a.toNat / 8)) s).2

theorem mod_eight_le (m : Nat) : m % 8 ≤ 8 := Nat.le_of_lt (Nat.mod_lt _ (by decide))

/-- The loop, then the rest of the bits if there is one. -/
theorem call_writeBits (p : Ptr Obj) : (call (writeBits o p a n) s).2 =
    if n.toNat % 8 = 0 then afterLoop o a n s p
    else (call (xMBUtilSetBits ⟨o, a.toNat / 8 + n.toNat / 8⟩ (a.toNat % 8) (n.toNat % 8)
      ((afterLoop o a n s p).byte p (n.toNat / 8)) (mod_eight_le _))
      { afterLoop o a n s p with
        mem := (afterLoop o a n s p).mem.touch (p.add (n.toNat / 8)) }).2 := by
  rw [writeBits, call_bind, Nat.add_sub_cancel, writeBitsLoop_val, afterLoop]
  by_cases hr : n.toNat % 8 = 0
  · simp [hr]
  · simp [hr, Store.byte]

theorem writeBits_reg (p : Ptr Obj) : (call (writeBits o p a n) s).2.reg = s.reg := by
  rw [call_writeBits]
  split
  · exact writeBitsLoop_reg _ _ _ _ _ _
  · rw [setBits_reg]
    exact writeBitsLoop_reg _ _ _ _ _ _

theorem writeBits_data_of_ne {o' : Obj} (ho : o' ≠ o) (p : Ptr Obj) :
    (call (writeBits o p a n) s).2.mem.data o' = s.mem.data o' := by
  rw [call_writeBits]
  split
  · exact writeBitsLoop_data_of_ne _ _ _ ho _ _ _
  · rw [setBits_data_of_ne _ _ _ _ _ _ _ ho]
    exact writeBitsLoop_data_of_ne _ _ _ ho _ _ _

/-- The bits written: those of the buffer, and what is left of its last byte. -/
theorem bitAt_writeBits (hp : p.obj ≠ o) :
    bitAt ((call (writeBits o p a n) s).2.mem.data o) =
      patch (spill (bitAt (s.mem.data o)) a.toNat n.toNat (bitAt (s.byte p)))
        a.toNat n.toNat (bitAt (s.byte p)) := by
  have hloop : bitAt ((afterLoop o a n s p).mem.data o) =
      patch (bitAt (s.mem.data o)) a.toNat (8 * (n.toNat / 8)) (bitAt (s.byte p)) := by
    rw [afterLoop, bitAt_writeBitsLoop _ _ _ hp,
      show 8 * (a.toNat / 8) + a.toNat % 8 = a.toNat by omega]
  rw [call_writeBits]
  funext k
  split
  · rename_i hn
    rw [hloop, spill_of_mod_eq_zero _ _ _ hn, show 8 * (n.toNat / 8) = n.toNat by omega]
  · rename_i hn
    have hbyte : (afterLoop o a n s p).byte p (n.toNat / 8) = s.byte p (n.toNat / 8) :=
      Store.byte_congr (writeBitsLoop_data_of_ne _ _ _ hp _ _ _) _
    rw [bitAt_setBits, Mem.touch_data, hloop, hbyte,
      show 8 * (a.toNat / 8 + n.toNat / 8) + a.toNat % 8 = a.toNat + 8 * (n.toNat / 8) by omega]
    have hbit (h : a.toNat + 8 * (n.toNat / 8) ≤ k) (h' : k < a.toNat + 8 * (n.toNat / 8) + 8) :
        (s.byte p (n.toNat / 8)).getLsbD (k - (a.toNat + 8 * (n.toNat / 8))) =
          bitAt (s.byte p) (k - a.toNat) := by
      rw [bitAt, show (k - a.toNat) / 8 = n.toNat / 8 by omega,
        show (k - a.toNat) % 8 = k - (a.toNat + 8 * (n.toNat / 8)) by omega]
    by_cases hw : a.toNat + 8 * (n.toNat / 8) ≤ k ∧ k < a.toNat + 8 * (n.toNat / 8) + 8
    · rw [if_pos hw, hbit hw.1 hw.2, patch_outside _ _ _ (by omega)]
      by_cases hk : k < a.toNat + n.toNat
      · rw [decide_eq_true (by omega), patch, if_pos (by omega), Bool.not_true, Bool.and_false,
          Bool.false_or]
      · rw [decide_eq_false (by omega), patch_outside _ _ _ (by omega), spill, if_pos (by omega),
          Bool.not_false, Bool.and_true]
    · rw [if_neg hw, patch, patch, spill, if_neg (show ¬ (a.toNat + n.toNat ≤ k ∧
        k < a.toNat + 8 * ((n.toNat + 7) / 8)) by omega)]
      exact if_congr (by omega) rfl rfl

end WriteBits

/-! ## Registers -/

section WriteRegsLoop

variable (o : RegObj) (n : Nat)

theorem writeRegsLoop_data (p : Ptr Obj) (ix : Nat) (s : Store) :
    (call (writeRegsLoop o n p ix) s).2.mem.data = s.mem.data := by
  induction n generalizing p ix s with
  | zero => rfl
  | succ n ih =>
    simp only [writeRegsLoop, call_bind, ih]
    rfl

/-- The two bytes of a register, one after the other, are the big-endian word. -/
theorem shift_or (hi lo : UCHAR) : hi.setWidth 16 <<< 8 ||| lo.setWidth 16 = hi ++ lo := by
  apply BitVec.eq_of_getLsbD_eq
  intro i hi
  rw [BitVec.getLsbD_append, BitVec.getLsbD_or, BitVec.getLsbD_shiftLeft, BitVec.getLsbD_setWidth,
    BitVec.getLsbD_setWidth]
  by_cases h : i < 8
  · simp [h, hi]
  · simp [h, hi, BitVec.getLsbD_of_ge lo i (by omega), show i - 8 < 16 by omega]

theorem writeRegsLoop_reg (p : Ptr Obj) (ix : Nat) (s : Store) :
    (call (writeRegsLoop o n p ix) s).2.reg.data =
      Function.update s.reg.data o (patch (s.reg.data o) ix n fun i => s.word p (2 * i)) := by
  induction n generalizing p ix s with
  | zero => rw [patch_zero, Function.update_eq_self]; rfl
  | succ n ih =>
    have hround (v w : USHORT) :
        (((s.reg.store ⟨o, ix⟩ v).touch ⟨o, ix⟩).store ⟨o, ix⟩ w).data o =
          Function.update (s.reg.data o) ix w := by
      rw [Mem.store_data_self _ ⟨o, ix⟩, Mem.touch_data, Mem.store_data_self _ ⟨o, ix⟩,
        Function.update_idem]
    have hword : (s.reg.store ⟨o, ix⟩ ((s.byte p 0).setWidth 16 <<< 8)).data o ix |||
        (s.byte p 1).setWidth 16 = s.word p 0 := by
      rw [Mem.store_data, if_pos ⟨rfl, rfl⟩, shift_or]
      rfl
    have hrest (r : Mem RegObj USHORT) (i : Nat) :
        { s with mem := (s.mem.touch p).touch (p.add 1), reg := r }.word (p.add 2) (2 * i) =
          s.word p (2 * (i + 1)) := by
      rw [Store.word_add, Nat.mul_succ, Nat.add_comm]
      rfl
    simp only [writeRegsLoop, call_bind, call_rd, call_rdReg, call_wrReg, ih, hrest]
    funext o'
    by_cases ho : o' = o
    · subst ho
      rw [Function.update_self, Function.update_self, patch_succ, hround]
      exact congrArg (fun w => patch (Function.update _ _ w) _ _ _) hword
    · rw [Function.update_of_ne ho, Function.update_of_ne ho, Mem.store_data_obj _ _ ho,
        Mem.touch_data, Mem.store_data_obj _ _ ho]

end WriteRegsLoop

/-! ## The callbacks -/

/-- The coils with the bits of `g` behind the first `n`, up to the end of their
byte, or-ed in behind the range. -/
def spillCoils (m : Maps) (a n : Nat) (g : Nat → Bool) : Maps :=
  { m with coil := spill m.coil a n g }

/-- The range of a map of `size` bits as a callback gets it. -/
theorem bitRange {a n size : Nat} (h : a + n ≤ size) (hsize : size ≤ 64) :
    (BitVec.ofNat 16 (a + 1) - 1).toNat = a ∧ (BitVec.ofNat 16 n : USHORT).toNat = n ∧
      InMap (BitVec.ofNat 16 (a + 1) - 1) (BitVec.ofNat 16 n) size := by
  have ha : (BitVec.ofNat 16 (a + 1) - 1).toNat = a := by
    rw [BitVec.toNat_sub, BitVec.toNat_ofNat]
    simp
    omega
  have hn : (BitVec.ofNat 16 n : USHORT).toNat = n := by
    rw [BitVec.toNat_ofNat]
    omega
  exact ⟨ha, hn, by rw [InMap, ha, hn]; exact h⟩

section Callbacks

variable (p : Ptr Obj) (usAddress usN : USHORT) (s : Store)

theorem holdingWrite_val : (call (eMBRegHoldingCB p usAddress usN .regWrite) s).1 =
    if InMap (usAddress - 1) usN sRegHoldingNRegs then .enoerr else .enoreg := by
  rw [eMBRegHoldingCB, call_ite]
  split <;> rfl

theorem holdingWrite_maps : (call (eMBRegHoldingCB p usAddress usN .regWrite) s).2.maps =
    if InMap (usAddress - 1) usN sRegHoldingNRegs then
      s.maps.writeHolding (usAddress - 1).toNat usN.toNat fun i => s.word p (2 * i)
    else s.maps := by
  rw [eMBRegHoldingCB, call_ite]
  split
  · have hd := writeRegsLoop_data .usSRegHoldBuf usN.toNat p (usAddress - 1).toNat s
    have hr := writeRegsLoop_reg .usSRegHoldBuf usN.toNat p (usAddress - 1).toNat s
    rw [call_bind, call_pure, Store.maps, hd, hr, Function.update_self,
      Function.update_of_ne (by decide)]
    rfl
  · rfl

theorem coilsWrite_val : (call (eMBRegCoilsCB p usAddress usN .regWrite) s).1 =
    if InMap (usAddress - 1) usN sCoilNCoils then .enoerr else .enoreg := by
  rw [eMBRegCoilsCB, call_ite]
  split <;> rfl

theorem coilsWrite_maps (hp : p.obj ≠ .ucSCoilBuf) :
    (call (eMBRegCoilsCB p usAddress usN .regWrite) s).2.maps =
      if InMap (usAddress - 1) usN sCoilNCoils then
        (spillCoils s.maps (usAddress - 1).toNat usN.toNat (bitAt (s.byte p))).writeCoils
          (usAddress - 1).toNat usN.toNat (bitAt (s.byte p))
      else s.maps := by
  rw [eMBRegCoilsCB, call_ite]
  split
  · rw [call_bind, call_pure, Store.maps, bitAt_writeBits _ _ _ _ hp, writeBits_reg,
      writeBits_data_of_ne _ _ _ _ (by decide)]
    rfl
  · rfl

end Callbacks

end Rs485.Modbus
