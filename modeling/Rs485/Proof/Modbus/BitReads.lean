import Rs485.Proof.Modbus.Effect

/-!
# Reading coils and discrete inputs

The loop puts whole bytes of eight bits into the reply, one more than the count
needs, and the two shifts clear what is behind the count in the last of them
(`bitAt_readBits`). So the reply holds the bits of the range and then zeros,
whatever is stored behind the range or behind the array
(`exactCoilRead_exactDiscreteRead`).
-/

namespace Rs485.Modbus

open Rs485.Framework Rs485.Spec

/-! ## Bit fields -/

section GetBits

variable (o : Obj) (ix off : Nat) {n : Nat} (s : Store)

/-- The bits that `xMBUtilGetBits` returns. -/
theorem getBits_getLsbD (hn : n ≤ 8) {j : Nat} (hj : j < 8) :
    (call (xMBUtilGetBits ⟨o, ix⟩ off n) s).1.getLsbD j =
      (decide (j < n) && bitAt (s.mem.data o) (8 * ix + off + j)) := by
  have hval : (call (xMBUtilGetBits ⟨o, ix⟩ off n) s).1 =
      ((wordAt (s.mem.data o) (ix + off / 8)) >>> (off - off / 8 * 8) &&&
        ((1 : USHORT) <<< n) - 1).setWidth 8 := rfl
  have hmask : (((1 : USHORT) <<< n) - 1).getLsbD j = decide (j < n) := by
    have := mask_getLsbD n 0 hn (show j < 16 by omega)
    rwa [BitVec.shiftLeft_zero, Nat.zero_add, decide_eq_decide.mpr (and_iff_right (Nat.zero_le j))] at this
  rw [hval, BitVec.getLsbD_setWidth, decide_eq_true hj, Bool.true_and, BitVec.getLsbD_and, hmask,
    BitVec.getLsbD_ushiftRight, wordAt_getLsbD _ _ (by omega), Bool.and_comm,
    show 8 * (ix + off / 8) + (off - off / 8 * 8 + j) = 8 * ix + off + j by omega]

end GetBits

section ReadBitsLoop

variable (o : Obj) (off n : Nat)

theorem readBitsLoop_val (p : Ptr Obj) (ix : Nat) (s : Store) :
    (call (readBitsLoop o off n p ix) s).1 = p.add n := by
  induction n generalizing p ix s with
  | zero => rfl
  | succ n ih => rw [readBitsLoop, call_bind, call_bind, ih, Ptr.add_add, Nat.add_comm 1 n]

theorem readBitsLoop_reg (p : Ptr Obj) (ix : Nat) (s : Store) :
    (call (readBitsLoop o off n p ix) s).2.reg = s.reg := by
  induction n generalizing p ix s with
  | zero => rfl
  | succ n ih =>
    rw [readBitsLoop, call_bind, call_bind, ih]
    rfl

theorem readBitsLoop_data_of_ne {p : Ptr Obj} {o' : Obj} (ho : o' ≠ p.obj) (ix : Nat) (s : Store) :
    (call (readBitsLoop o off n p ix) s).2.mem.data o' = s.mem.data o' := by
  induction n generalizing p ix s with
  | zero => rfl
  | succ n ih =>
    rw [readBitsLoop, call_bind, call_bind, ih (p := p.add 1) ho]
    exact Mem.store_data_obj _ _ ho

/-- The bits of the reply after the loop. -/
theorem bitAt_readBitsLoop {p : Ptr Obj} (hp : p.obj ≠ o) (ix : Nat) (s : Store) :
    bitAt ((call (readBitsLoop o off n p ix) s).2.mem.data p.obj) =
      patch (bitAt (s.mem.data p.obj)) (8 * p.off) (8 * n)
        fun k => bitAt (s.mem.data o) (8 * ix + off + k) := by
  induction n generalizing p ix s with
  | zero => rw [Nat.mul_zero, patch_zero]; rfl
  | succ n ih =>
    let v := (call (xMBUtilGetBits ⟨o, ix⟩ off 8) s).1
    let t := (call (wr p v) (call (xMBUtilGetBits ⟨o, ix⟩ off 8) s).2).2
    have hone : bitAt (t.mem.data p.obj) =
        patch (bitAt (s.mem.data p.obj)) (8 * p.off) 8
          fun k => bitAt (s.mem.data o) (8 * ix + off + k) := by
      have hdata : t.mem.data p.obj = Function.update (s.mem.data p.obj) p.off v :=
        Mem.store_data_self _ _ _
      rw [hdata, bitAt_update]
      refine patch_congr fun j hj => ?_
      rw [getBits_getLsbD _ _ _ _ (Nat.le_refl 8) hj, decide_eq_true hj, Bool.true_and]
    have hrest : t.mem.data o = s.mem.data o := Mem.store_data_obj _ _ hp.symm
    rw [readBitsLoop, call_bind, call_bind]
    have hloop := ih (p := p.add 1) hp (ix + 1) t
    rw [hrest, Ptr.add_obj, hone, Ptr.add_off, Nat.mul_add 8 p.off 1] at hloop
    refine hloop.trans ?_
    rw [show 8 * (n + 1) = 8 + 8 * n by omega, ← patch_patch]
    refine patch_congr fun k _ => ?_
    rw [show 8 * (ix + 1) + off + k = 8 * ix + off + (8 + k) by omega]

end ReadBitsLoop

section ReadBits

variable (o : Obj) (a n : USHORT) {p : Ptr Obj} (s : Store)

/-- The store after the loop of `readBits`. -/
def afterReadLoop (p : Ptr Obj) : Store :=
  (call (readBitsLoop o (a.toNat % 8) (n.toNat / 8 + 1) p (a.toNat / 8)) s).2

/-- The loop, then the shifts on the last byte it has put into the reply. -/
theorem readBits_data (p : Ptr Obj) : (call (readBits o p a n) s).2.mem.data =
    Function.update (afterReadLoop o a n s p).mem.data p.obj
      (Function.update ((afterReadLoop o a n s p).mem.data p.obj) (p.off + n.toNat / 8)
        (((afterReadLoop o a n s p).byte p (n.toNat / 8) <<< (8 - n.toNat % 8)) >>>
          (8 - n.toNat % 8))) := by
  rw [readBits, call_bind, readBitsLoop_val, ← afterReadLoop, Ptr.pred_add_succ]
  funext o' i
  by_cases ho : o' = p.obj
  · subst ho
    rw [Function.update_self, Function.update_apply]
    simp only [call_bind, call_rd, call_wr, Mem.store_data, Mem.touch_data, Ptr.add_obj, Ptr.add_off,
      true_and, and_self, if_true]
    split <;> rfl
  · rw [Function.update_of_ne ho]
    simp [Mem.store_data, ho]

theorem readBits_reg (p : Ptr Obj) : (call (readBits o p a n) s).2.reg = s.reg := by
  rw [readBits, call_bind, readBitsLoop_val]
  exact readBitsLoop_reg _ _ _ _ _ _

theorem readBits_data_of_ne {o' : Obj} (ho : o' ≠ p.obj) :
    (call (readBits o p a n) s).2.mem.data o' = s.mem.data o' := by
  rw [readBits_data, Function.update_of_ne ho]
  exact readBitsLoop_data_of_ne _ _ _ ho _ _

/-- The bits of the reply: those of the range, then zeros up to the end of the last byte. -/
theorem bitAt_readBits (hp : p.obj ≠ o) :
    bitAt ((call (readBits o p a n) s).2.mem.data p.obj) =
      patch (bitAt (s.mem.data p.obj)) (8 * p.off) (8 * (n.toNat / 8 + 1))
        fun k => decide (k < n.toNat) && bitAt (s.mem.data o) (a.toNat + k) := by
  have hloop : bitAt ((afterReadLoop o a n s p).mem.data p.obj) =
      patch (bitAt (s.mem.data p.obj)) (8 * p.off) (8 * (n.toNat / 8 + 1))
        fun k => bitAt (s.mem.data o) (a.toNat + k) := by
    rw [afterReadLoop, bitAt_readBitsLoop _ _ _ hp,
      show 8 * (a.toNat / 8) + a.toNat % 8 = a.toNat by omega]
  rw [readBits_data, Function.update_self, bitAt_update]
  funext k
  rw [patch, shifts_getLsbD _ (mod_eight_le _)]
  by_cases hlast : 8 * (p.off + n.toNat / 8) ≤ k ∧ k < 8 * (p.off + n.toNat / 8) + 8
  · -- the byte that is shifted
    have hbit : ((afterReadLoop o a n s p).byte p (n.toNat / 8)).getLsbD
        (k - 8 * (p.off + n.toNat / 8)) = bitAt (s.mem.data o) (a.toNat + (k - 8 * p.off)) := by
      have := congrFun hloop k
      rw [bitAt, show k / 8 = p.off + n.toNat / 8 by omega,
        show k % 8 = k - 8 * (p.off + n.toNat / 8) by omega, patch, if_pos (by omega)] at this
      exact this
    rw [if_pos hlast, hbit, patch, if_pos (by omega)]
    congr 1
    exact decide_eq_decide.mpr (by omega)
  · rw [if_neg hlast, hloop, patch, patch]
    by_cases hk : 8 * p.off ≤ k ∧ k < 8 * p.off + 8 * (n.toNat / 8 + 1)
    · rw [if_pos hk, if_pos hk, decide_eq_true (by omega), Bool.true_and]
    · rw [if_neg hk, if_neg hk]

end ReadBits

/-! ## The callbacks -/

/-- A read of the `n` bits from the 0-based `a` on succeeds, has put these bits at `p` and
zeros behind them up to the end of their last byte, and leaves the maps. -/
def ExactBitRead (bits : Nat → Bool) (a n : Nat) (p : Ptr Obj) (s : Store)
    (r : MBErrorCode × Store) : Prop :=
  r.1 = .enoerr ∧
    (∀ i < n, (r.2.byte p (i / 8)).getLsbD (i % 8) = bits (a + i)) ∧
    (∀ i, n ≤ i → i < 8 * ((n + 7) / 8) → (r.2.byte p (i / 8)).getLsbD (i % 8) = false) ∧
    r.2.maps = s.maps

section

variable {a n : Nat} (p : Ptr Obj) (s : Store) (hp : ¬ p.obj.IsMap)
include hp

theorem exactBitRead {o : Obj} (ho : o.IsMap) {x : StoreM MBErrorCode} {usAddress usN : USHORT}
    (ha : usAddress.toNat = a) (hn : usN.toNat = n)
    (hx : call x s = (.enoerr, (call (readBits o p usAddress usN) s).2)) :
    ExactBitRead (bitAt (s.mem.data o)) a n p s (call x s) := by
  have hpo : p.obj ≠ o := fun e => hp (e ▸ ho)
  have hbits (i : Nat) (hi : i < 8 * (n / 8 + 1)) :
      (((call (readBits o p usAddress usN) s).2.byte p (i / 8)).getLsbD (i % 8)) =
        (decide (i < n) && bitAt (s.mem.data o) (a + i)) := by
    have := congrFun (bitAt_readBits o usAddress usN s hpo) (8 * p.off + i)
    rw [bitAt, show (8 * p.off + i) / 8 = p.off + i / 8 by omega,
      show (8 * p.off + i) % 8 = i % 8 by omega, patch_inside _ _ _ (by omega), ha, hn] at this
    exact this
  rw [hx]
  refine ⟨rfl, fun i hi => ?_, fun i hi hi' => ?_, ?_⟩
  · rw [hbits i (by omega), decide_eq_true hi, Bool.true_and]
  · rw [hbits i (by omega), decide_eq_false (by omega), Bool.false_and]
  · exact Store.maps_congr (fun _ ho' => readBits_data_of_ne _ _ _ _ fun e => hp (e ▸ ho'))
      (congrArg Mem.data (readBits_reg _ _ _ _ _))

/-- Coils and discrete inputs are read exactly. -/
theorem exactCoilRead_exactDiscreteRead :
    (a + n ≤ sCoilNCoils → ExactBitRead s.maps.coil a n p s
      (call (eMBRegCoilsCB p (BitVec.ofNat 16 (a + 1)) (BitVec.ofNat 16 n) .regRead) s)) ∧
    (a + n ≤ sDiscreteInputNDiscretes → ExactBitRead s.maps.discrete a n p s
      (call (eMBRegDiscreteCB p (BitVec.ofNat 16 (a + 1)) (BitVec.ofNat 16 n)) s)) := by
  constructor
  · intro h
    obtain ⟨ha, hn, hin⟩ := bitRange h (by decide)
    refine exactBitRead p s hp (Or.inl rfl) ha hn ?_
    rw [eMBRegCoilsCB, call_ite, if_pos hin]
    rfl
  · intro h
    obtain ⟨ha, hn, hin⟩ := bitRange h (by decide)
    refine exactBitRead p s hp (Or.inr rfl) ha hn ?_
    rw [eMBRegDiscreteCB, call_ite, if_pos hin]
    rfl

end

/-- The store at reset with `v` in every byte, those behind the arrays included. -/
def Store.filled (v : UCHAR) : Store :=
  { (Slave.reset 0).store with mem := ⟨fun _ _ => v, []⟩ }

/-- The last eight coils and the discrete inputs from 3 to 12. -/
theorem exactCoilRead_exactDiscreteRead_filled :
    ExactBitRead (Store.filled 0xA5).maps.coil 56 8 ⟨.ucRTUBuf 0, 3⟩ (.filled 0xA5)
      (call (eMBRegCoilsCB ⟨.ucRTUBuf 0, 3⟩ 57 8 .regRead) (.filled 0xA5)) ∧
    ExactBitRead (Store.filled 0xA5).maps.discrete 3 10 ⟨.ucRTUBuf 0, 3⟩ (.filled 0xA5)
      (call (eMBRegDiscreteCB ⟨.ucRTUBuf 0, 3⟩ 4 10) (.filled 0xA5)) :=
  ⟨(exactCoilRead_exactDiscreteRead ⟨.ucRTUBuf 0, 3⟩ (.filled 0xA5) nofun).1 (by decide),
    (exactCoilRead_exactDiscreteRead ⟨.ucRTUBuf 0, 3⟩ (.filled 0xA5) nofun).2 (by decide)⟩

end Rs485.Modbus
