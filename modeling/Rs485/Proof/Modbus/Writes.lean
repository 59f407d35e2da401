import Rs485.Proof.Modbus.Effect
import Rs485.Proof.Modbus.Footprint

/-!
# What the write requests do

The exception a handler returns and the maps it leaves, as a function of the
length, the parameters in the frame (`s.word f i`, `s.byte f i`) and the maps.
-/

namespace Rs485.Modbus

open Rs485.Framework Rs485.Spec

/-- The exception a handler returned, and the maps it left. -/
def result (r : (MBException × Nat) × Store) : MBException × Maps := (r.1.1, r.2.maps)

/-- The exception of a callback that checks a range. -/
def rangeException (inMap : Prop) [Decidable inMap] : MBException :=
  if inMap then .exNone else .exIllegalDataAddress

/-- A write of coils, if the range is in the map. -/
def coilsResult (m : Maps) (a n : USHORT) (g : Nat → Bool) : MBException × Maps :=
  if InMap a n sCoilNCoils then
    (.exNone, (spillCoils m a.toNat n.toNat g).writeCoils a.toNat n.toNat g)
  else (.exIllegalDataAddress, m)

/-- A write of holding registers, if the range is in the map. -/
def holdingResult (m : Maps) (a n : USHORT) (g : Nat → USHORT) : MBException × Maps :=
  if InMap a n sRegHoldingNRegs then (.exNone, m.writeHolding a.toNat n.toNat g)
  else (.exIllegalDataAddress, m)

theorem spill_congr {f : Nat → Bool} {a n : Nat} {g g' : Nat → Bool}
    (h : ∀ i < 8 * ((n + 7) / 8), g i = g' i) : spill f a n g = spill f a n g' := by
  funext k
  rw [spill, spill]
  split
  · rw [h _ (by omega)]
  · rfl

/-- A write of coils depends on the bits of the value bytes. -/
theorem coilsResult_congr {m : Maps} {a n : USHORT} {g g' : Nat → Bool}
    (h : ∀ i < 8 * ((n.toNat + 7) / 8), g i = g' i) : coilsResult m a n g = coilsResult m a n g' := by
  rw [coilsResult, coilsResult, Maps.writeCoils, Maps.writeCoils, spillCoils, spillCoils,
    spill_congr h, patch_congr fun i hi => h i (by omega)]

/-- A write of holding registers depends on the words written. -/
theorem holdingResult_congr {m : Maps} {a n : USHORT} {g g' : Nat → USHORT}
    (h : ∀ i < n.toNat, g i = g' i) : holdingResult m a n g = holdingResult m a n g' := by
  rw [holdingResult, holdingResult, Maps.writeHolding, Maps.writeHolding, patch_congr h]

/-! ## A callback at the end of a handler -/

theorem finish_result (x : StoreM MBErrorCode) (usLen usLenOk : Nat) (s : Store) :
    result (call (do let e ← x; finish e usLen usLenOk) s) =
      (prveMBError2Exception (call x s).1, (call x s).2.maps) := by
  rw [call_bind, finish, call_ite]
  split
  · rfl
  · rename_i he
    rw [not_not.mp he]
    rfl

section Callbacks

variable (p : Ptr Obj) (a n : USHORT) (s : Store)

theorem coilsWrite_result (hp : p.obj ≠ .ucSCoilBuf) :
    (prveMBError2Exception (call (eMBRegCoilsCB p (a + 1) n .regWrite) s).1,
      (call (eMBRegCoilsCB p (a + 1) n .regWrite) s).2.maps) =
      coilsResult s.maps a n (bitAt (s.byte p)) := by
  rw [coilsWrite_val, coilsWrite_maps _ _ _ _ hp, coilsResult, BitVec.add_sub_cancel]
  split <;> rfl

theorem holdingWrite_result :
    (prveMBError2Exception (call (eMBRegHoldingCB p (a + 1) n .regWrite) s).1,
      (call (eMBRegHoldingCB p (a + 1) n .regWrite) s).2.maps) =
      holdingResult s.maps a n fun i => s.word p (2 * i) := by
  rw [holdingWrite_val, holdingWrite_maps, holdingResult, BitVec.add_sub_cancel]
  split <;> rfl

/-- A write that something follows if it succeeds. -/
theorem writeThen_result (x : StoreM (MBException × Nat)) (L : Nat) :
    result (call (do
      let e ← eMBRegHoldingCB p (a + 1) n .regWrite
      if e = .enoerr then x else return (prveMBError2Exception e, L)) s) =
      if InMap a n sRegHoldingNRegs then
        result (call x (call (eMBRegHoldingCB p (a + 1) n .regWrite) s).2)
      else (.exIllegalDataAddress, s.maps) := by
  rw [call_bind, call_ite, holdingWrite_val, BitVec.add_sub_cancel]
  split
  · rfl
  · rename_i h
    refine Prod.ext rfl ?_
    have hmaps := holdingWrite_maps p (a + 1) n s
    rw [BitVec.add_sub_cancel, if_neg h] at hmaps
    exact hmaps

theorem holdingRead_val : (call (eMBRegHoldingCB p (a + 1) n .regRead) s).1 =
    if InMap a n sRegHoldingNRegs then .enoerr else .enoreg := by
  rw [eMBRegHoldingCB, BitVec.add_sub_cancel, call_ite]
  split <;> rfl

end Callbacks

/-! ## The handlers -/

/-- A request to read leaves the maps as they are. -/
theorem frameAccess_maps (c : Maps) {f : Ptr Obj} (hf : ¬ f.obj.IsMap) :
    FrameAccess (fun s => s.maps = c) f where
  rd := Reads.maps c f _
  wr := Writes.maps c hf _
  bits := fun _ _ _ => Reads.maps c _ _
  regs := fun _ _ hs => hs

section Handlers

variable (f : Ptr Obj) (L : Nat) (s : Store)

/-- The parameters of a request to write coils agree. -/
def ValidCoils : Prop :=
  1 ≤ (s.word f 3).toNat ∧ (s.word f 3).toNat ≤ 0x07B0 ∧ nBytes (s.word f 3) = s.byte f 5

instance : Decidable (ValidCoils f s) := inferInstanceAs (Decidable (_ ∧ _))

/-- The parameters of a request to write holding registers agree. -/
def ValidHolding : Prop :=
  1 ≤ (s.word f 3).toNat ∧ (s.word f 3).toNat ≤ 0x0078 ∧
    s.byte f 5 = BitVec.ofNat 8 (2 * (s.word f 3).toNat)

instance : Decidable (ValidHolding f s) := inferInstanceAs (Decidable (_ ∧ _))

/-- The parameters of a request to write and read holding registers agree. -/
def ValidReadWrite : Prop :=
  1 ≤ (s.word f 3).toNat ∧ (s.word f 3).toNat ≤ 0x7D ∧
    1 ≤ (s.word f 7).toNat ∧ (s.word f 7).toNat ≤ 0x79 ∧
    2 * (s.word f 7).toNat = (s.byte f 9).toNat

instance : Decidable (ValidReadWrite f s) := inferInstanceAs (Decidable (_ ∧ _))

variable (hf : ¬ f.obj.IsMap)

include hf in
theorem writeMultipleCoils_result : result (call (eMBFuncWriteMultipleCoils f L) s) =
    if L > 5 then
      if ValidCoils f s then
        coilsResult s.maps (s.word f 1) (s.word f 3) (bitAt (s.byte (f.add 6)))
      else (.exIllegalDataValue, s.maps)
    else (.exIllegalDataValue, s.maps) := by
  rw [eMBFuncWriteMultipleCoils, call_ite, apply_ite result]
  refine if_congr Iff.rfl ?_ rfl
  rw [call_bind, call_bind, call_bind, call_ite, apply_ite result]
  refine if_congr Iff.rfl ?_ rfl
  rw [finish_result, coilsWrite_result (f.add 6) _ _ _ fun h => hf (Or.inl h)]
  rfl

/-- The value field of a request to write one coil. -/
def ValidCoil : Prop := s.byte f 4 = 0x00 ∧ (s.byte f 3 = 0xFF ∨ s.byte f 3 = 0x00)

instance : Decidable (ValidCoil f s) := inferInstanceAs (Decidable (_ ∧ _))

theorem writeCoil_result : result (call (eMBFuncWriteCoil f L) s) =
    if L = 5 then
      if ValidCoil f s then
        coilsResult s.maps (s.word f 1) 1 fun i => decide (i = 0 ∧ s.byte f 3 = 0xFF)
      else (.exIllegalDataValue, s.maps)
    else (.exIllegalDataValue, s.maps) := by
  rw [eMBFuncWriteCoil, call_ite, apply_ite result]
  refine if_congr Iff.rfl ?_ rfl
  rw [call_bind, call_bind, call_bind, call_ite, apply_ite result]
  refine if_congr Iff.rfl ?_ rfl
  rw [call_bind, call_bind, finish_result, coilsWrite_result ⟨.ucBuf, 0⟩ _ _ _ (by decide)]
  have hbuf : ¬ Obj.IsMap .ucBuf := by rintro (h | h) <;> cases h
  have hmaps (t : Store) (v : UCHAR) :
      (call (wr ⟨.ucBuf, 0⟩ v) (call (wr ⟨.ucBuf, 1⟩ 0) t).2).2.maps = t.maps :=
    (Store.maps_store hbuf _).trans (Store.maps_store hbuf _)
  rw [hmaps]
  refine coilsResult_congr fun i hi => ?_
  have hi : i < 8 := hi
  rw [bitAt, Nat.div_eq_of_lt hi, Nat.mod_eq_of_lt hi]
  show (if s.byte f 3 = 0xFF then (1 : UCHAR) else 0).getLsbD i = _
  split
  · rename_i h
    simp [h, hi]
  · rename_i h
    rw [decide_eq_false fun hc => h hc.2]
    simp

theorem writeHoldingRegister_result : result (call (eMBFuncWriteHoldingRegister f L) s) =
    if L = 5 then
      holdingResult s.maps (s.word f 1) 1 fun i => s.word (f.add 3) (2 * i)
    else (.exIllegalDataValue, s.maps) := by
  rw [eMBFuncWriteHoldingRegister, call_ite, apply_ite result]
  refine if_congr Iff.rfl ?_ rfl
  rw [call_bind, finish_result, holdingWrite_result]
  rfl

theorem writeMultipleHoldingRegister_result :
    result (call (eMBFuncWriteMultipleHoldingRegister f L) s) =
      if L ≥ 6 then
        if ValidHolding f s then
          holdingResult s.maps (s.word f 1) (s.word f 3) fun i => s.word (f.add 6) (2 * i)
        else (.exIllegalDataValue, s.maps)
      else (.exIllegalDataValue, s.maps) := by
  rw [eMBFuncWriteMultipleHoldingRegister, call_ite, apply_ite result]
  refine if_congr Iff.rfl ?_ rfl
  rw [call_bind, call_bind, call_bind, call_ite, apply_ite result]
  refine if_congr Iff.rfl ?_ rfl
  rw [finish_result, holdingWrite_result]
  rfl

include hf in
theorem readReply_result (c b : UCHAR) (n : Nat) (a k : USHORT) :
    result (call (readReply f c b n fun p => eMBRegHoldingCB p (a + 1) k .regRead) s) =
      (rangeException (InMap a k sRegHoldingNRegs), s.maps) := by
  rw [readReply, call_bind, call_bind, finish_result, holdingRead_val]
  refine Prod.ext ?_ ?_
  · rw [rangeException, apply_ite prveMBError2Exception]
    rfl
  · have hread := (frameAccess_maps s.maps hf).holdingRead (q := f.add 2) (a + 1) k
      (Writes.maps _ (p := f.add 2) hf _)
    refine (hread _ ?_).2
    exact (Store.maps_store (p := f.add 1) hf _).trans (Store.maps_store hf _)

include hf in
theorem readWriteMultipleHoldingRegister_result :
    result (call (eMBFuncReadWriteMultipleHoldingRegister f L) s) =
      if L ≥ 10 then
        if ValidReadWrite f s then
          if InMap (s.word f 5) (s.word f 7) sRegHoldingNRegs then
            (rangeException (InMap (s.word f 1) (s.word f 3) sRegHoldingNRegs),
              s.maps.writeHolding (s.word f 5).toNat (s.word f 7).toNat
                fun i => s.word (f.add 10) (2 * i))
          else (.exIllegalDataAddress, s.maps)
        else (.exIllegalDataValue, s.maps)
      else (.exNone, s.maps) := by
  rw [eMBFuncReadWriteMultipleHoldingRegister, call_ite, apply_ite result]
  refine if_congr Iff.rfl ?_ rfl
  rw [call_bind, call_bind, call_bind, call_bind, call_bind, call_ite, apply_ite result]
  refine if_congr Iff.rfl ?_ rfl
  rw [writeThen_result]
  refine if_ctx_congr Iff.rfl (fun h => ?_) fun _ => rfl
  rw [readReply_result _ _ hf, holdingWrite_maps, BitVec.add_sub_cancel]
  exact congrArg _ (if_pos h)

end Handlers

end Rs485.Modbus
