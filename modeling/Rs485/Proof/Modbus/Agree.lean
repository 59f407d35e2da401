import Mathlib.Data.List.GetD
import Rs485.Proof.Modbus.RegReads

/-!
# The holding-register requests agree

What a complete request of each kind does, from the PDU received to the reply
(`writeRegs_request`, `writeReg_request`, `readRegs_request`,
`readWriteRegs_request`). A write of several registers is the writes of each, and
a write with a read is the write followed by the read (`holding_agree`).
-/

namespace Rs485.Modbus

open Rs485.Framework Rs485.Spec

/-! ## Requests -/

/-- The store once the PDU `pdu` was received at `f`. -/
def Store.receive (f : Ptr Obj) (pdu : List UCHAR) (s : Store) : Store :=
  { s with
    mem.data := Function.update s.mem.data f.obj
      (patch (s.mem.data f.obj) f.off pdu.length (pdu.getD · 0)) }

/-- The request `pdu` is received and handled. -/
def serve (h : MBFunctionHandler) (f : Ptr Obj) (pdu : List UCHAR) (s : Store) :
    (MBException × Nat) × Store :=
  call (h f pdu.length) (s.receive f pdu)

/-- To write `v` to register `a`. -/
def writeRegPdu (a v : USHORT) : List UCHAR := 6 :: beBytes a ++ beBytes v

/-- To write `vs` to the registers from `a` on. -/
def writeRegsPdu (a : USHORT) (vs : List USHORT) : List UCHAR :=
  16 :: beBytes a ++ beBytes (BitVec.ofNat 16 vs.length) ++
    BitVec.ofNat 8 (2 * vs.length) :: vs.flatMap beBytes

/-- To read `n` registers from `a` on. -/
def readRegsPdu (a n : USHORT) : List UCHAR := 3 :: beBytes a ++ beBytes n

/-- To write `vs` to the registers from `wa` on, and then read `n` from `a` on. -/
def readWriteRegsPdu (a n wa : USHORT) (vs : List USHORT) : List UCHAR :=
  23 :: beBytes a ++ beBytes n ++ beBytes wa ++ beBytes (BitVec.ofNat 16 vs.length) ++
    BitVec.ofNat 8 (2 * vs.length) :: vs.flatMap beBytes

/-- The writes of `vs` to the registers from `a` on, one request for each. -/
def writeEach (f : Ptr Obj) : USHORT → List USHORT → Store → Store
  | _, [], s => s
  | a, v :: vs, s =>
    writeEach f (a + 1) vs (serve eMBFuncWriteHoldingRegister f (writeRegPdu a v) s).2

section Lengths

variable (a n v wa : USHORT) (vs : List USHORT)

@[simp] theorem length_writeRegPdu : (writeRegPdu a v).length = 5 := rfl

@[simp] theorem length_readRegsPdu : (readRegsPdu a n).length = 5 := rfl

@[simp] theorem length_writeRegsPdu : (writeRegsPdu a vs).length = 6 + 2 * vs.length := by
  simp [writeRegsPdu, flatMap_beBytes]
  omega

@[simp] theorem length_readWriteRegsPdu : (readWriteRegsPdu a n wa vs).length = 10 + 2 * vs.length := by
  simp [readWriteRegsPdu, flatMap_beBytes]
  omega

end Lengths

section Receive

variable {f : Ptr Obj} {pdu : List UCHAR} {s : Store}

theorem receive_byte {i : Nat} (hi : i < pdu.length) : (s.receive f pdu).byte f i = pdu.getD i 0 := by
  have hdata : (s.receive f pdu).mem.data f.obj =
      patch (s.mem.data f.obj) f.off pdu.length (pdu.getD · 0) := Function.update_self _ _ _
  rw [Store.byte, hdata, patch_inside _ _ _ hi]

theorem receive_word {i : Nat} (hi : i + 1 < pdu.length) :
    (s.receive f pdu).word f i = pdu.getD i 0 ++ pdu.getD (i + 1) 0 := by
  rw [Store.word, receive_byte hi, receive_byte (by omega)]

/-- A word of a request, behind a header. -/
theorem receive_beBytes (header : List UCHAR) (v : USHORT) (rest : List UCHAR)
    (hpdu : pdu = header ++ beBytes v ++ rest) : (s.receive f pdu).word f header.length = v := by
  have hlen : header.length + 1 < pdu.length := by
    rw [hpdu, List.length_append, List.length_append, length_beBytes]
    omega
  have hget (k : Nat) (hk : k < 2) : pdu.getD (header.length + k) 0 = (beBytes v).getD k 0 := by
    rw [hpdu, List.append_assoc, List.getD_append_right _ _ _ _ (Nat.le_add_right _ _), Nat.add_sub_cancel_left,
      List.getD_append _ _ _ _ hk]
  rw [receive_word hlen, hget 1 (by decide)]
  exact (congrArg (· ++ _) (hget 0 (by decide))).trans (beBytes_append v)

/-- A word among the values of a request, which follow a header of `o` bytes. -/
theorem receive_value (header : List UCHAR) {vs : List USHORT} (hpdu : pdu = header ++ vs.flatMap beBytes)
    {i : Nat} (hi : i < vs.length) :
    (s.receive f pdu).word (f.add header.length) (2 * i) = vs.getD i 0 := by
  have hlen : pdu.length = header.length + 2 * vs.length := by
    rw [hpdu, flatMap_beBytes, List.length_append, length_words]
  have hbyte (k : Nat) (hk : k < 2 * vs.length) :
      pdu.getD (header.length + k) 0 = wordByte (vs.getD · 0) k := by
    rw [hpdu, flatMap_beBytes, List.getD_append_right _ _ _ _ (Nat.le_add_right _ _), Nat.add_sub_cancel_left,
      getD_words hk]
  rw [Store.word_add, receive_word (by omega), hbyte _ (by omega), Nat.add_assoc, hbyte _ (by omega),
    wordByte_append]

variable (pdu) in
theorem receive_maps (hf : ¬ f.obj.IsMap) : (s.receive f pdu).maps = s.maps :=
  Store.maps_congr (fun o ho => Function.update_of_ne (fun e : o = f.obj => hf (e ▸ ho)) _ _) rfl

end Receive

/-- A read-write request that is valid and may write has written `v` when it replies. -/
theorem readWrite_call {f : Ptr Obj} {L : Nat} {t : Store} (hL : L ≥ 10) (hvalid : ValidReadWrite f t)
    (hin : InMap (t.word f 5) (t.word f 7) sRegHoldingNRegs) :
    ∃ v : Store, v.maps = t.maps.writeHolding (t.word f 5).toNat (t.word f 7).toNat
        (fun i => t.word (f.add 10) (2 * i)) ∧
      call (eMBFuncReadWriteMultipleHoldingRegister f L) t =
        call (readReply f 23 (BitVec.ofNat 8 ((t.word f 3).toNat * 2)) (2 * (t.word f 3).toNat) fun p =>
          eMBRegHoldingCB p (t.word f 1 + 1) (t.word f 3) .regRead) v := by
  let t' := (call (rd (f.add 9)) (call (rdWord (f.add 7)) (call (rdWord (f.add 5))
    (call (rdWord (f.add 3)) (call (rdWord (f.add 1)) t).2).2).2).2).2
  have hin' : InMap (t.word f 5 + 1 - 1) (t.word f 7) sRegHoldingNRegs := by rwa [BitVec.add_sub_cancel]
  have hval := holdingWrite_val (f.add 10) (t.word f 5 + 1) (t.word f 7) t'
  have hmaps := holdingWrite_maps (f.add 10) (t.word f 5 + 1) (t.word f 7) t'
  rw [if_pos hin'] at hval
  rw [if_pos hin', BitVec.add_sub_cancel] at hmaps
  refine ⟨_, hmaps, ?_⟩
  rw [eMBFuncReadWriteMultipleHoldingRegister, call_ite, if_pos hL, call_bind, call_bind, call_bind, call_bind,
    call_bind, call_ite]
  refine (if_pos hvalid).trans ?_
  rw [call_bind, call_ite]
  exact if_pos hval

section

variable {f : Ptr Obj} (hf : ¬ f.obj.IsMap) {a : USHORT} {s : Store}
include hf

theorem writeReg_request {v : USHORT} (h : a.toNat < sRegHoldingNRegs) :
    result (serve eMBFuncWriteHoldingRegister f (writeRegPdu a v) s) =
      (.exNone, s.maps.writeHolding a.toNat 1 fun _ => v) := by
  have ha : (s.receive f (writeRegPdu a v)).word f 1 = a := receive_beBytes [6] a (beBytes v) rfl
  have hv : (s.receive f (writeRegPdu a v)).word (f.add 3) 0 = v := by
    rw [Store.word_add]
    exact receive_beBytes (6 :: beBytes a) v [] (List.append_nil _).symm
  have hin : InMap a 1 sRegHoldingNRegs := h
  rw [serve, writeHoldingRegister_result, if_pos (length_writeRegPdu a v), holdingResult, ha, if_pos hin,
    receive_maps _ hf]
  refine congrArg _ (Maps.writeHolding_congr _ fun i hi => ?_)
  rw [Nat.lt_one_iff.mp hi]
  exact hv

/-- The values, one request for each. -/
theorem writeEach_maps {vs : List USHORT} (h : a.toNat + vs.length ≤ sRegHoldingNRegs) :
    (writeEach f a vs s).maps = s.maps.writeHolding a.toNat vs.length (vs.getD · 0) := by
  induction vs generalizing a s with
  | nil => rw [List.length_nil, Maps.writeHolding, patch_zero]; rfl
  | cons v vs ih =>
    rw [List.length_cons] at h ⊢
    have hle : a.toNat + (vs.length + 1) ≤ 100 := h
    have ha : (a + 1).toNat = a.toNat + 1 := by
      rw [BitVec.toNat_add, show (1 : USHORT).toNat = 1 from rfl]
      omega
    have hone : (serve eMBFuncWriteHoldingRegister f (writeRegPdu a v) s).2.maps =
        s.maps.writeHolding a.toNat 1 fun _ => v :=
      congrArg Prod.snd (writeReg_request hf (show a.toNat < 100 by omega))
    have hle' : (a + 1).toNat + vs.length ≤ 100 := by omega
    rw [writeEach, ih hle', ha, hone, Nat.add_comm vs.length 1, ← Maps.writeHolding_writeHolding]
    have hfirst : s.maps.writeHolding a.toNat 1 (fun _ => v) =
        s.maps.writeHolding a.toNat 1 ((v :: vs).getD · 0) :=
      Maps.writeHolding_congr _ fun i hi => by rw [Nat.lt_one_iff.mp hi]; rfl
    rw [hfirst]
    refine Maps.writeHolding_congr _ fun i _ => ?_
    rw [Nat.add_comm 1, List.getD_cons_succ]

theorem writeRegs_request {vs : List USHORT} (hn : 1 ≤ vs.length) (h : a.toNat + vs.length ≤ sRegHoldingNRegs) :
    result (serve eMBFuncWriteMultipleHoldingRegister f (writeRegsPdu a vs) s) =
      (.exNone, s.maps.writeHolding a.toNat vs.length (vs.getD · 0)) := by
  let t := s.receive f (writeRegsPdu a vs)
  have hle : a.toNat + vs.length ≤ 100 := h
  have ha : t.word f 1 = a := receive_beBytes [16] a _ rfl
  have hc : t.word f 3 = BitVec.ofNat 16 vs.length := receive_beBytes (16 :: beBytes a) _ _ rfl
  have hlen : (t.word f 3).toNat = vs.length := by
    rw [hc, BitVec.toNat_ofNat]
    omega
  have hcount : t.byte f 5 = BitVec.ofNat 8 (2 * vs.length) := receive_byte (by simp; omega)
  have hvals (i : Nat) (hi : i < vs.length) : t.word (f.add 6) (2 * i) = vs.getD i 0 :=
    receive_value (16 :: beBytes a ++ beBytes (BitVec.ofNat 16 vs.length) ++
      [BitVec.ofNat 8 (2 * vs.length)]) (by simp [writeRegsPdu]) hi
  have hvalid : ValidHolding f t := ⟨by omega, by omega, by rw [hcount, hlen]⟩
  have hin : InMap a (t.word f 3) sRegHoldingNRegs := by
    rw [InMap, hlen]
    exact h
  rw [serve, writeMultipleHoldingRegister_result, if_pos (by simp), if_pos hvalid, holdingResult, ha, if_pos hin,
    hlen, receive_maps _ hf]
  exact congrArg _ (Maps.writeHolding_congr _ hvals)

theorem readRegs_request {n : USHORT} (h1 : 1 ≤ n.toNat) (hmax : n.toNat ≤ 125) :
    let r := serve eMBFuncReadHoldingRegister f (readRegsPdu a n) s
    r.1 = (if InMap a n 100 then (.exNone, 2 + 2 * n.toNat) else (.exIllegalDataAddress, 2)) ∧
      r.2.maps = s.maps ∧
      (InMap a n 100 → r.2.mem.slice f (2 + 2 * n.toNat) =
        3 :: BitVec.ofNat 8 (2 * n.toNat) :: words (fun i => s.maps.holding (a.toNat + i)) n.toNat) := by
  intro r
  let t := s.receive f (readRegsPdu a n)
  have ha : t.word f 1 = a := receive_beBytes [3] a (beBytes n) rfl
  have hn : (t.byte f 4).setWidth 16 = n := by
    have hbyte : t.byte f 4 = n.setWidth 8 := receive_byte (by simp)
    apply BitVec.eq_of_toNat_eq
    rw [hbyte, BitVec.toNat_setWidth, BitVec.toNat_setWidth]
    omega
  have hmaps := receive_maps (s := s) (readRegsPdu a n) hf
  have hans := readHoldingRegister_answers f t
  rw [ha, hn, hmaps] at hans
  have hval := hans.val
  rw [if_pos ⟨h1, hmax⟩] at hval
  exact ⟨hval, ((frameAccess_maps s.maps hf).readHoldingRegister 5 t hmaps).2, hans.slice ⟨h1, hmax⟩⟩

/-- The write, then what the read request would answer, with another function code. -/
theorem readWriteRegs_request {n wa : USHORT} {vs : List USHORT} (h1 : 1 ≤ n.toNat) (hmax : n.toNat ≤ 125)
    (hn : 1 ≤ vs.length) (h : wa.toNat + vs.length ≤ sRegHoldingNRegs) :
    let m := s.maps.writeHolding wa.toNat vs.length (vs.getD · 0)
    let r := serve eMBFuncReadWriteMultipleHoldingRegister f (readWriteRegsPdu a n wa vs) s
    r.1 = (if InMap a n 100 then (.exNone, 2 + 2 * n.toNat) else (.exIllegalDataAddress, 2)) ∧
      r.2.maps = m ∧
      (InMap a n 100 → r.2.mem.slice f (2 + 2 * n.toNat) =
        23 :: BitVec.ofNat 8 (2 * n.toNat) :: words (fun i => m.holding (a.toNat + i)) n.toNat) := by
  intro m r
  let t := s.receive f (readWriteRegsPdu a n wa vs)
  have hle : wa.toNat + vs.length ≤ 100 := h
  have ha : t.word f 1 = a := receive_beBytes [23] a _ rfl
  have hcount : t.word f 3 = n := receive_beBytes (23 :: beBytes a) n _ rfl
  have hwa : t.word f 5 = wa := receive_beBytes (23 :: beBytes a ++ beBytes n) wa _ rfl
  have hwcount : t.word f 7 = BitVec.ofNat 16 vs.length :=
    receive_beBytes (23 :: beBytes a ++ beBytes n ++ beBytes wa) _ _ rfl
  have hlen : (t.word f 7).toNat = vs.length := by
    rw [hwcount, BitVec.toNat_ofNat]
    omega
  have hbytes : (t.byte f 9).toNat = 2 * vs.length := by
    have hbyte : t.byte f 9 = BitVec.ofNat 8 (2 * vs.length) := receive_byte (by simp; omega)
    rw [hbyte, BitVec.toNat_ofNat]
    omega
  have hvals (i : Nat) (hi : i < vs.length) : t.word (f.add 10) (2 * i) = vs.getD i 0 :=
    receive_value (23 :: beBytes a ++ beBytes n ++ beBytes wa ++
      beBytes (BitVec.ofNat 16 vs.length) ++ [BitVec.ofNat 8 (2 * vs.length)])
      (by simp [readWriteRegsPdu]) hi
  have hmaps : t.maps = s.maps := receive_maps _ hf
  have hvalid : ValidReadWrite f t := by
    rw [ValidReadWrite, hcount, hlen, hbytes]
    omega
  have hin : InMap wa (t.word f 7) 100 := by
    rw [InMap, hlen]
    exact h
  have hlen10 : (readWriteRegsPdu a n wa vs).length ≥ 10 := by simp
  obtain ⟨v, hv, hcall⟩ := readWrite_call hlen10 hvalid (by rwa [hwa])
  rw [hwa, hlen, hmaps, Maps.writeHolding_congr _ hvals] at hv
  rw [ha, hcount] at hcall
  obtain ⟨hval, -, hslice⟩ := readReply_regs (holdingCB_reads a n) f 23 (BitVec.ofNat 8 (n.toNat * 2)) v rfl
  have hresult := congrArg Prod.snd (readReply_result f v hf 23 (BitVec.ofNat 8 (n.toNat * 2)) (2 * n.toNat) a n)
  rw [← hcall] at hval hslice hresult
  refine ⟨hval, hresult.trans hv, fun hr => ?_⟩
  rw [show r.2.mem.slice f (2 + 2 * n.toNat) = _ from hslice hr, Nat.mul_comm n.toNat 2,
    show m = v.maps from hv.symm]
  rfl

end

/-- The requests that write and read holding registers agree. -/
theorem holding_agree (f : Ptr Obj) (s : Store) (a : USHORT) (vs : List USHORT) (hf : ¬ f.obj.IsMap)
    (hn : 1 ≤ vs.length) (h : a.toNat + vs.length ≤ sRegHoldingNRegs) :
    let r16 := serve eMBFuncWriteMultipleHoldingRegister f (writeRegsPdu a vs) s
    r16.1.1 = .exNone ∧ r16.2.maps = (writeEach f a vs s).maps ∧
    (∀ w c : USHORT, 1 ≤ c.toNat → w.toNat + c.toNat ≤ sRegHoldingNRegs →
      let r3 := serve eMBFuncReadHoldingRegister f (readRegsPdu w c) r16.2
      r3.1 = (.exNone, 2 + 2 * c.toNat) ∧ r3.2.mem.slice f (2 + 2 * c.toNat) =
        3 :: BitVec.ofNat 8 (2 * c.toNat) ::
          words (fun i => patch s.maps.holding a.toNat vs.length (vs.getD · 0) (w.toNat + i)) c.toNat) ∧
    ∀ w c : USHORT, 1 ≤ c.toNat → c.toNat ≤ 125 →
      let r23 := serve eMBFuncReadWriteMultipleHoldingRegister f (readWriteRegsPdu w c a vs) s
      let r3 := serve eMBFuncReadHoldingRegister f (readRegsPdu w c) r16.2
      r23.1 = r3.1 ∧ r23.2.maps = r3.2.maps ∧
        (r23.1.1 = .exNone → (r23.2.mem.slice f r23.1.2).tail = (r3.2.mem.slice f r3.1.2).tail) := by
  intro r16
  have hwrite := writeRegs_request hf (s := s) hn h
  have hmaps : r16.2.maps = s.maps.writeHolding a.toNat vs.length (vs.getD · 0) := congrArg Prod.snd hwrite
  refine ⟨congrArg Prod.fst hwrite, hmaps.trans (writeEach_maps hf h).symm, fun w c h1 hc => ?_,
    fun w c h1 hmax => ?_⟩
  · have hin : InMap w c 100 := hc
    have hc100 : w.toNat + c.toNat ≤ 100 := hc
    obtain ⟨hval, -, hslice⟩ := readRegs_request hf (a := w) (s := r16.2) h1 (by omega)
    rw [if_pos hin] at hval
    rw [hmaps] at hslice
    exact ⟨hval, hslice hin⟩
  · obtain ⟨hval, hmaps3, hslice⟩ := readRegs_request hf (a := w) (s := r16.2) h1 hmax
    obtain ⟨hval23, hmaps23, hslice23⟩ := readWriteRegs_request hf (a := w) (s := s) h1 hmax hn h
    refine ⟨hval23.trans hval.symm, hmaps23.trans (hmaps.symm.trans hmaps3.symm), fun he => ?_⟩
    by_cases hin : InMap w c 100
    · rw [if_pos hin] at hval hval23
      rw [hval, hval23, hslice hin, hslice23 hin, hmaps]
      rfl
    · rw [hval23, if_neg hin] at he
      cases he

/-- Registers 10 and 11 are written, a window around them is read, and a window out of the map
is refused after the write. -/
theorem holding_agree_two :
    let f : Ptr Obj := ⟨.ucRTUBuf 0, 1⟩
    let s : Store := .ofFrame []
    let vs : List USHORT := [0x1234, 0x5678]
    let r16 := serve eMBFuncWriteMultipleHoldingRegister f (writeRegsPdu 10 vs) s
    r16.1.1 = .exNone ∧ r16.2.maps = (writeEach f 10 vs s).maps ∧
    (let r3 := serve eMBFuncReadHoldingRegister f (readRegsPdu 9 4) r16.2
     r3.1 = (.exNone, 2 + 2 * (4 : USHORT).toNat) ∧ r3.2.mem.slice f (2 + 2 * (4 : USHORT).toNat) =
      3 :: BitVec.ofNat 8 (2 * (4 : USHORT).toNat) ::
        words (fun i => patch s.maps.holding (10 : USHORT).toNat vs.length (vs.getD · 0) ((9 : USHORT).toNat + i))
          (4 : USHORT).toNat) ∧
    let r23 := serve eMBFuncReadWriteMultipleHoldingRegister f (readWriteRegsPdu 99 2 10 vs) s
    let r3 := serve eMBFuncReadHoldingRegister f (readRegsPdu 99 2) r16.2
    r23.1 = r3.1 ∧ r23.2.maps = r3.2.maps ∧
      (r23.1.1 = .exNone → (r23.2.mem.slice f r23.1.2).tail = (r3.2.mem.slice f r3.1.2).tail) := by
  obtain ⟨h16, hmaps, hread, hboth⟩ :=
    holding_agree ⟨.ucRTUBuf 0, 1⟩ (.ofFrame []) 10 [0x1234, 0x5678] nofun (by decide) (by decide)
  exact ⟨h16, hmaps, hread 9 4 (by decide) (by decide), hboth 99 2 (by decide) (by decide)⟩

end Rs485.Modbus
