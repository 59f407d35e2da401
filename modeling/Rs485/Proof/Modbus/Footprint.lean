import Rs485.Impl.Modbus.Functions
import Rs485.Proof.Modbus.Store

/-!
# What the functions access

A loop, a callback or a handler keeps every invariant that the accesses it may
make keep. The accesses to the frame are stated exactly; to the other objects
they are not, except that a request to read makes no write there.
-/

namespace Rs485.Modbus

open Rs485.Framework

variable {I : Store → Prop} {p : Ptr Obj} {n : Nat}

/-! ## The loops -/

theorem readRegsLoop_preserves (o : RegObj) (hr : ∀ q, Preserves I (rdReg q))
    (hw : Writes I p (2 * n)) (ix : Nat) : Preserves I (readRegsLoop o n p ix) := by
  induction n generalizing p ix with
  | zero => exact Preserves.pure _
  | succ n ih =>
    refine Preserves.seq (hr _) fun _ => Preserves.seq (hw 0 (by omega) _) fun _ =>
      Preserves.seq (hr _) fun _ => Preserves.seq (hw 1 (by omega) _) fun _ => ih ?_ _
    exact hw.add (by omega)

theorem writeRegsLoop_preserves (o : RegObj) (hr : ∀ q, Preserves I (rdReg q))
    (hw : ∀ q v, Preserves I (wrReg q v)) (h : Reads I p (2 * n)) (ix : Nat) :
    Preserves I (writeRegsLoop o n p ix) := by
  induction n generalizing p ix with
  | zero => exact Preserves.pure _
  | succ n ih =>
    refine Preserves.seq (h 0 (by omega)) fun _ => Preserves.seq (hw _ _) fun _ =>
      Preserves.seq (h 1 (by omega)) fun _ => Preserves.seq (hr _) fun _ =>
      Preserves.seq (hw _ _) fun _ => ih ?_ _
    exact h.add (by omega)

theorem getBits_preserves {q : Ptr Obj} (h : Reads I q 2) {off : Nat} (hoff : off < 8) (k : Nat) :
    Preserves I (xMBUtilGetBits q off k) := by
  rw [xMBUtilGetBits, Nat.div_eq_of_lt hoff]
  exact Preserves.seq (h 0 (by omega)) fun _ => Preserves.seq (h 1 (by omega)) fun _ =>
    Preserves.pure _

theorem setBits_preserves {q : Ptr Obj} (hr : Reads I q 2) (hw : Writes I q 2) {off : Nat}
    (hoff : off < 8) {k : Nat} (v : UCHAR) (hk : k ≤ 8) :
    Preserves I (xMBUtilSetBits q off k v hk) := by
  rw [xMBUtilSetBits, Nat.div_eq_of_lt hoff]
  exact Preserves.seq (hr 0 (by omega)) fun _ => Preserves.seq (hr 1 (by omega)) fun _ =>
    Preserves.seq (hw 0 (by omega) _) fun _ => hw 1 (by omega) _

variable {o : Obj}

theorem readBitsLoop_preserves (hr : ∀ ix, Reads I ⟨o, ix⟩ 2) (hw : Writes I p n) {off : Nat}
    (hoff : off < 8) (ix : Nat) :
    Meets I (readBitsLoop o off n p ix) fun q s => q = p.add n ∧ I s := by
  induction n generalizing p ix with
  | zero => exact fun s hs => ⟨rfl, hs⟩
  | succ n ih =>
    refine Preserves.seq (getBits_preserves (hr ix) hoff 8) fun _ =>
      Preserves.seq (hw 0 (by omega) _) fun _ => ?_
    rw [show p.add (n + 1) = (p.add 1).add n by rw [Ptr.add_add, Nat.add_comm]]
    exact ih (hw.add (by omega)) _

theorem writeBitsLoop_preserves (hr : ∀ ix, Reads I ⟨o, ix⟩ 2) (hw : ∀ ix, Writes I ⟨o, ix⟩ 2)
    (h : Reads I p n) {off : Nat} (hoff : off < 8) (ix : Nat) :
    Meets I (writeBitsLoop o off n p ix) fun q s => q = (p.add n, ix + n) ∧ I s := by
  induction n generalizing p ix with
  | zero => exact fun s hs => ⟨rfl, hs⟩
  | succ n ih =>
    refine Preserves.seq (h 0 (by omega)) fun _ =>
      Preserves.seq (setBits_preserves (hr ix) (hw ix) hoff _ _) fun _ => ?_
    rw [show p.add (n + 1) = (p.add 1).add n by rw [Ptr.add_add, Nat.add_comm],
      show ix + (n + 1) = ix + 1 + n by omega]
    exact ih (h.add (by omega)) _

theorem readBits_preserves (hr : ∀ ix, Reads I ⟨o, ix⟩ 2) {usN : USHORT} (h : Reads I p n)
    (hw : Writes I p n) (hn : usN.toNat / 8 + 1 ≤ n) (usAddress : USHORT) :
    Preserves I (readBits o p usAddress usN) := by
  refine Meets.bind (readBitsLoop_preserves hr (hw.mono hn) (Nat.mod_lt _ (by decide)) _)
    fun q s hs => ?_
  obtain ⟨rfl, hs⟩ := hs
  have h₀ := h _ (show usN.toNat / 8 < n by omega)
  have h₁ := hw _ (show usN.toNat / 8 < n by omega)
  rw [← Ptr.pred_add_succ] at h₀ h₁
  exact Preserves.seq h₀ (fun _ => Preserves.seq (h₁ _) fun _ => Preserves.seq h₀ fun _ => h₁ _)
    s hs

theorem writeBits_preserves (hr : ∀ ix, Reads I ⟨o, ix⟩ 2) (hw : ∀ ix, Writes I ⟨o, ix⟩ 2)
    {usN : USHORT} (h : Reads I p n) (hn : usN.toNat / 8 + 1 ≤ n) (usAddress : USHORT) :
    Preserves I (writeBits o p usAddress usN) := by
  have hoff := Nat.mod_lt usAddress.toNat (show 8 > 0 by decide)
  refine Meets.bind (writeBitsLoop_preserves hr hw (h.mono (by omega)) hoff _) fun q s hs => ?_
  obtain ⟨rfl, hs⟩ := hs
  dsimp only
  split
  · exact Preserves.seq (h _ (by omega))
      (fun _ => setBits_preserves (hr _) (hw _) hoff _ _) s hs
  · exact hs

/-! ## The callbacks -/

/-- What a callback for `usN` items of a map of `size` does: it keeps `I`, and
reports no error only if the range is in the map. -/
def CallbackOk (I : Store → Prop) (usAddress usN : USHORT) (size : Nat) (x : StoreM MBErrorCode) :
    Prop :=
  Meets I x fun r s => (r = .enoerr → InMap (usAddress - 1) usN size) ∧ I s

/-- A callback that works only if the range is in the map. -/
theorem CallbackOk.check {usAddress usN : USHORT} {size : Nat} {x : StoreM Unit}
    (h : InMap (usAddress - 1) usN size → Preserves I x) :
    CallbackOk I usAddress usN size
      (if InMap (usAddress - 1) usN size then do x; return .enoerr else return .enoreg) :=
  Meets.ite (fun hc => Preserves.seq (h hc) fun _ _ hs => ⟨fun _ => hc, hs⟩)
    fun _ _ hs => ⟨nofun, hs⟩

/-- A handler may access the frame behind `p`, and read the maps. -/
structure FrameAccess (I : Store → Prop) (p : Ptr Obj) : Prop where
  rd : Reads I p 255
  wr : Writes I p 255
  bits : ∀ o : Obj, o.IsMap → ∀ ix, Reads I ⟨o, ix⟩ 2
  regs : ∀ q, Preserves I (rdReg q)

/-- A handler may write the maps, and use the buffer of `eMBFuncWriteCoil`. -/
structure MapAccess (I : Store → Prop) : Prop where
  bits : ∀ ix, Writes I ⟨.ucSCoilBuf, ix⟩ 2
  regs : ∀ q v, Preserves I (wrReg q v)
  rdBuf : Reads I ⟨.ucBuf, 0⟩ 2
  wrBuf : Writes I ⟨.ucBuf, 0⟩ 2

section Callbacks

variable {f : Ptr Obj} (hF : FrameAccess I f) {q : Ptr Obj} (usAddress usN : USHORT)
include hF

theorem FrameAccess.inputCB (hw : Writes I q 200) :
    CallbackOk I usAddress usN 100 (eMBRegInputCB q usAddress usN) := by
  refine CallbackOk.check fun hc => readRegsLoop_preserves _ hF.regs (hw.mono ?_) _
  rw [InMap] at hc
  omega

theorem FrameAccess.holdingRead (hw : Writes I q 200) :
    CallbackOk I usAddress usN 100 (eMBRegHoldingCB q usAddress usN .regRead) := by
  refine CallbackOk.check fun hc => readRegsLoop_preserves _ hF.regs (hw.mono ?_) _
  rw [InMap] at hc
  omega

theorem FrameAccess.holdingWrite (hM : MapAccess I) (h : Reads I q 200) :
    CallbackOk I usAddress usN 100 (eMBRegHoldingCB q usAddress usN .regWrite) := by
  refine CallbackOk.check fun hc => writeRegsLoop_preserves _ hF.regs hM.regs (h.mono ?_) _
  rw [InMap] at hc
  omega

theorem FrameAccess.coilsRead (h : Reads I q 9) (hw : Writes I q 9) :
    CallbackOk I usAddress usN 64 (eMBRegCoilsCB q usAddress usN .regRead) := by
  refine CallbackOk.check fun hc =>
    readBits_preserves (hF.bits _ (Or.inl rfl)) h hw ?_ _
  rw [InMap] at hc
  omega

theorem FrameAccess.discreteRead (h : Reads I q 9) (hw : Writes I q 9) :
    CallbackOk I usAddress usN 64 (eMBRegDiscreteCB q usAddress usN) := by
  refine CallbackOk.check fun hc =>
    readBits_preserves (hF.bits _ (Or.inr rfl)) h hw ?_ _
  rw [InMap] at hc
  omega

theorem FrameAccess.coilsWrite (hM : MapAccess I) (h : Reads I q (usN.toNat / 8 + 1)) :
    CallbackOk I usAddress usN 64 (eMBRegCoilsCB q usAddress usN .regWrite) :=
  CallbackOk.check fun _ =>
    writeBits_preserves (hF.bits _ (Or.inl rfl)) hM.bits h (Nat.le_refl _) _

end Callbacks

/-! ## The handlers -/

/-- A length that fits the frame buffer between the address and the CRC. -/
def LenOk (usLength : Nat) : Prop := 1 ≤ usLength ∧ usLength ≤ 253

/-- What a handler does with a frame at `f`: it keeps `I`, and leaves a length that fits. -/
def HandlerOk (I : Store → Prop) (f : Ptr Obj) (h : MBFunctionHandler) : Prop :=
  ∀ usLen, Meets I (h f usLen) fun r s => (LenOk usLen → LenOk r.2) ∧ I s

/-- The bytes of so many bits, in a `UCHAR`. -/
theorem nBytes_le {n : USHORT} (hn : n.toNat ≤ 64) : (nBytes n).toNat ≤ 9 := by
  rw [nBytes]
  split <;> rw [BitVec.toNat_ofNat] <;> omega

theorem copyIn_preserves {src : Nat → UCHAR} {dst : Ptr Obj} {n : Nat} (hw : Writes I dst n) :
    Preserves I (copyIn src dst n) := by
  induction n with
  | zero => exact Preserves.pure _
  | succ n ih => exact Preserves.seq (ih (hw.mono (by omega))) fun _ => hw n (by omega) _

section Handlers

variable {f : Ptr Obj} (hF : FrameAccess I f)

/-- A return without a reply. -/
theorem ret_ok (e : MBException) (usLen : Nat) :
    Meets I (pure (e, usLen)) fun r s => (LenOk usLen → LenOk r.2) ∧ I s :=
  fun _ hs => ⟨id, hs⟩

/-- A handler returns with the status of its callback. -/
theorem finish_ok {usAddress usN : USHORT} {size usLen usLen' usLenOk : Nat}
    {x : StoreM MBErrorCode} (hx : CallbackOk I usAddress usN size x)
    (hlen' : LenOk usLen → LenOk usLen')
    (hlen : InMap (usAddress - 1) usN size → LenOk usLen → LenOk usLenOk) :
    Meets I (do let e ← x; finish e usLen' usLenOk)
      fun r s => (LenOk usLen → LenOk r.2) ∧ I s := by
  refine Meets.bind hx fun e s hs => ?_
  rw [finish]
  split
  · exact ⟨hlen', hs.2⟩
  · rename_i he
    exact ⟨hlen (hs.1 (not_not.mp he)), hs.2⟩

include hF

theorem FrameAccess.byte {i : Nat} (hi : i < 255) : Preserves I (Modbus.rd (f.add i)) := hF.rd i hi

theorem FrameAccess.word {i : Nat} (hi : i < 254) : Preserves I (rdWord (f.add i)) :=
  ((hF.rd.add (by omega)).mono (by omega)).rdWord

theorem FrameAccess.readReply {usAddress usN : USHORT} {size usLen n : Nat} (c b : UCHAR)
    {regCB : Ptr Obj → StoreM MBErrorCode}
    (hcb : CallbackOk I usAddress usN size (regCB (f.add 2)))
    (hlen : InMap (usAddress - 1) usN size → n ≤ 251) :
    Meets I (readReply f c b n regCB) fun r s => (LenOk usLen → LenOk r.2) ∧ I s := by
  refine Preserves.seq (hF.wr 0 (by decide) _) fun _ =>
    Preserves.seq (hF.wr 1 (by decide) _) fun _ => finish_ok hcb (fun _ => ?_) fun hc _ => ?_
  · exact ⟨by decide, by decide⟩
  · have := hlen hc
    exact ⟨by omega, by omega⟩

theorem FrameAccess.readBitsRequest {c : UCHAR}
    {regCB : Ptr Obj → USHORT → USHORT → StoreM MBErrorCode}
    (hcb : ∀ a n, CallbackOk I a n 64 (regCB (f.add 2) a n)) :
    HandlerOk I f (readBitsRequest c regCB) := by
  intro usLen
  refine Meets.ite (fun _ => ?_) fun _ => ret_ok _ _
  refine Preserves.seq (hF.word (by decide)) fun usRegAddress =>
    Preserves.seq (hF.word (by decide)) fun usCount => Meets.ite (fun _ => ?_) fun _ => ret_ok _ _
  refine hF.readReply _ _ (hcb _ _) fun hc => ?_
  rw [InMap] at hc
  have := nBytes_le (n := usCount) (by omega)
  omega

theorem FrameAccess.readCoils : HandlerOk I f eMBFuncReadCoils :=
  hF.readBitsRequest fun a n => hF.coilsRead a n ((hF.rd.add (by decide)).mono (by decide))
    ((hF.wr.add (by decide)).mono (by decide))

theorem FrameAccess.readDiscreteInputs : HandlerOk I f eMBFuncReadDiscreteInputs :=
  hF.readBitsRequest fun a n => hF.discreteRead a n ((hF.rd.add (by decide)).mono (by decide))
    ((hF.wr.add (by decide)).mono (by decide))

theorem FrameAccess.readInputRegister : HandlerOk I f eMBFuncReadInputRegister := by
  intro usLen
  refine Meets.ite (fun _ => ?_) fun _ => ret_ok _ _
  refine Preserves.seq (hF.word (by decide)) fun usRegAddress =>
    Preserves.seq (hF.word (by decide)) fun usRegCount =>
    Meets.ite (fun _ => ?_) fun _ => ret_ok _ _
  refine hF.readReply _ _ (hF.inputCB _ _ ((hF.wr.add (by decide)).mono (by decide)))
    fun hc => ?_
  rw [InMap] at hc
  omega

theorem FrameAccess.readHoldingRegister : HandlerOk I f eMBFuncReadHoldingRegister := by
  intro usLen
  refine Meets.ite (fun _ => ?_) fun _ => ret_ok _ _
  refine Preserves.seq (hF.word (by decide)) fun usRegAddress =>
    Preserves.seq (hF.byte (by decide)) fun _ => Preserves.seq (hF.byte (by decide)) fun lo =>
    Meets.ite (fun _ => ?_) fun _ => ret_ok _ _
  refine hF.readReply _ _ (hF.holdingRead _ _ ((hF.wr.add (by decide)).mono (by decide)))
    fun hc => ?_
  rw [InMap] at hc
  omega

theorem FrameAccess.reportSlaveID : HandlerOk I f eMBFuncReportSlaveID := by
  intro usLen s hs
  have hlen := s.slaveID.len_lt
  rw [eMBFuncReportSlaveID]
  have hlen' : LenOk (1 + s.slaveID.usMBSlaveIDLen) := ⟨by omega, by omega⟩
  exact ⟨fun _ => hlen',
    copyIn_preserves ((hF.wr.add (show 1 ≤ 255 by decide)).mono (by omega)) s hs⟩

variable (hM : MapAccess I)
include hM

theorem FrameAccess.writeCoil : HandlerOk I f eMBFuncWriteCoil := by
  intro usLen
  refine Meets.ite (fun _ => ?_) fun _ => ret_ok _ _
  refine Preserves.seq (hF.word (by decide)) fun usRegAddress =>
    Preserves.seq (hF.byte (by decide)) fun lo => Preserves.seq (hF.byte (by decide)) fun hi =>
    Meets.ite (fun _ => ?_) fun _ => ret_ok _ _
  exact Preserves.seq (hM.wrBuf 1 (by decide) _) fun _ =>
    Preserves.seq (hM.wrBuf 0 (by decide) _) fun _ =>
    finish_ok (hF.coilsWrite _ _ hM (hM.rdBuf.mono (by decide))) id fun _ => id

theorem FrameAccess.writeMultipleCoils : HandlerOk I f eMBFuncWriteMultipleCoils := by
  intro usLen
  refine Meets.ite (fun _ => ?_) fun _ => ret_ok _ _
  refine Preserves.seq (hF.word (by decide)) fun usRegAddress =>
    Preserves.seq (hF.word (by decide)) fun usCoilCnt =>
    Preserves.seq (hF.byte (by decide)) fun ucByteCount =>
    Meets.ite (fun hc => ?_) fun _ => ret_ok _ _
  refine finish_ok (hF.coilsWrite _ _ hM ((hF.rd.add (by decide)).mono ?_)) id fun _ _ => ?_
  · omega
  · exact ⟨by decide, by decide⟩

theorem FrameAccess.writeHoldingRegister : HandlerOk I f eMBFuncWriteHoldingRegister := by
  intro usLen
  refine Meets.ite (fun _ => ?_) fun _ => ret_ok _ _
  exact Preserves.seq (hF.word (by decide)) fun usRegAddress =>
    finish_ok (hF.holdingWrite _ _ hM ((hF.rd.add (by decide)).mono (by decide))) id fun _ => id

theorem FrameAccess.writeMultipleHoldingRegister :
    HandlerOk I f eMBFuncWriteMultipleHoldingRegister := by
  intro usLen
  refine Meets.ite (fun _ => ?_) fun _ => ret_ok _ _
  refine Preserves.seq (hF.word (by decide)) fun usRegAddress =>
    Preserves.seq (hF.word (by decide)) fun usRegCount =>
    Preserves.seq (hF.byte (by decide)) fun ucRegByteCount =>
    Meets.ite (fun _ => ?_) fun _ => ret_ok _ _
  exact finish_ok (hF.holdingWrite _ _ hM ((hF.rd.add (by decide)).mono (by decide))) id
    fun _ _ => ⟨by decide, by decide⟩

theorem FrameAccess.readWriteMultipleHoldingRegister :
    HandlerOk I f eMBFuncReadWriteMultipleHoldingRegister := by
  intro usLen
  refine Meets.ite (fun _ => ?_) fun _ => ret_ok _ _
  refine Preserves.seq (hF.word (by decide)) fun usRegReadAddress =>
    Preserves.seq (hF.word (by decide)) fun usRegReadCount =>
    Preserves.seq (hF.word (by decide)) fun usRegWriteAddress =>
    Preserves.seq (hF.word (by decide)) fun usRegWriteCount =>
    Preserves.seq (hF.byte (by decide)) fun ucRegWriteByteCount =>
    Meets.ite (fun _ => ?_) fun _ => ret_ok _ _
  refine Meets.bind (hF.holdingWrite _ _ hM ((hF.rd.add (by decide)).mono (by decide)))
    fun eRegStatus => Meets.mono (P := I) ?_ (fun _ hs => hs.2) fun _ _ h => h
  refine Meets.ite (fun _ => ?_) fun _ => ret_ok _ _
  refine hF.readReply _ _ (hF.holdingRead _ _ ((hF.wr.add (by decide)).mono (by decide)))
    fun hc => ?_
  rw [InMap] at hc
  omega

end Handlers

end Rs485.Modbus
