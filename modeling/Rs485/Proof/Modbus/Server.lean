import Rs485.Proof.Modbus.Agree
import Rs485.Proof.Modbus.BitReads
import Rs485.Proof.Modbus.Requests
import Rs485.Spec.Server

/-!
# The handlers are the services of a Modbus server

Every registered handler answers as the abstract server does and leaves the maps
that the server has then (`xFuncHandlers_serve`), on the requests that the two
can agree on (`Regular`). With the error frame of an exception and the frame of
`eMBRTUSend` around it, this is what `eMBPoll` makes of `EV_EXECUTE`
(`executes_as_server`).
-/

namespace Rs485.Modbus

open Rs485.Framework Rs485.Spec
open Rs485.Spec.Server (Pdu Answer)

/-- The server that a store is. -/
def Store.server (s : Store) : Server.State where
  maps := s.maps
  id := (List.range s.slaveID.usMBSlaveIDLen).map s.slaveID.ucMBSlaveID

/-- A handler has returned the answer `a` for the frame at `f`. -/
def Returns (a : Answer) (f : Ptr Obj) (r : (MBException × Nat) × Store) : Prop :=
  match a with
  | .reply pdu => r.1 = (.exNone, pdu.length) ∧ r.2.mem.slice f pdu.length = pdu
  | .refused code => r.1.1 ≠ .exNone ∧ r.1.1.code = code

/-- A handler has served a request. -/
def Serves (x : Answer × Maps) (f : Ptr Obj) (r : (MBException × Nat) × Store) : Prop :=
  Returns x.1 f r ∧ r.2.maps = x.2

/-- The requests on which the handlers are those of a server: the values that the byte count
says are there, no value byte has a bit behind the last coil, and a count of registers to
read has the high byte zero. -/
def Regular (pdu : Pdu) : Prop :=
  (pdu.byte 0 = 3 → pdu.byte 3 = 0) ∧
  (pdu.byte 0 = 15 → 6 ≤ pdu.length → 6 + (pdu.byte 5).toNat ≤ pdu.length ∧
    ∀ i < 8 * (pdu.byte 5).toNat, (pdu.word 3).toNat ≤ i → bitAt (fun k => pdu.byte (6 + k)) i = false) ∧
  (pdu.byte 0 = 16 → 6 ≤ pdu.length → 6 + (pdu.byte 5).toNat ≤ pdu.length) ∧
  (pdu.byte 0 = 23 → 10 ≤ pdu.length → 10 + (pdu.byte 9).toNat ≤ pdu.length)

instance (pdu : Pdu) : Decidable (Regular pdu) := inferInstanceAs (Decidable (_ ∧ _))

/-! ## The PDU in the buffer -/

section Pdu

variable {f : Ptr Obj} {L i : Nat} {s : Store}

theorem slice_byte (h : i < L) : Pdu.byte (s.mem.slice f L) i = s.byte f i := by
  rw [Pdu.byte, Mem.slice, List.getD_eq_getElem?_getD, List.getElem?_map, List.getElem?_range h]
  rfl

theorem slice_word (h : i + 1 < L) : Pdu.word (s.mem.slice f L) i = s.word f i := by
  rw [Pdu.word, slice_byte (by omega), slice_byte h]
  rfl

theorem take_slice (h : i ≤ L) : (s.mem.slice f L).take i = s.mem.slice f i := Mem.take_slice _ _ h

end Pdu

/-! ## What a handler leaves of the frame -/

/-- The frame is as it was. -/
def SameFrame (f : Ptr Obj) (s t : Store) : Prop := t.mem.data f.obj = s.mem.data f.obj

section Keeps

variable {f : Ptr Obj} {s : Store}

theorem SameFrame.slice {t : Store} (h : SameFrame f s t) (n : Nat) : t.mem.slice f n = s.mem.slice f n :=
  Mem.slice_congr fun _ _ => by rw [show t.mem.data f.obj = _ from h]

theorem rd_keeps (p : Ptr Obj) : Preserves (SameFrame f s) (rd p) := fun _ h => h

theorem rdWord_keeps (p : Ptr Obj) : Preserves (SameFrame f s) (rdWord p) := fun _ h => h

theorem wr_keeps {p : Ptr Obj} (hp : f.obj ≠ p.obj) (v : UCHAR) : Preserves (SameFrame f s) (wr p v) :=
  fun _ h => (Mem.store_data_obj _ _ hp).trans h

theorem coilsWrite_keeps (hf : f.obj ≠ .ucSCoilBuf) (p : Ptr Obj) (a n : USHORT) :
    Preserves (SameFrame f s) (eMBRegCoilsCB p a n .regWrite) := by
  refine Meets.ite (fun _ => ?_) fun _ _ h => h
  exact Preserves.seq (fun t h => (writeBits_data_of_ne _ _ _ t hf p).trans h) fun _ => Preserves.pure _

theorem holdingWrite_keeps (p : Ptr Obj) (a n : USHORT) :
    Preserves (SameFrame f s) (eMBRegHoldingCB p a n .regWrite) := by
  refine Meets.ite (fun _ => ?_) fun _ _ h => h
  exact Preserves.seq (fun t h => (congrFun (writeRegsLoop_data _ _ p _ t) _).trans h) fun _ => Preserves.pure _

/-- A handler that replies with the first `len` bytes of the request. -/
def Echoes (h : MBFunctionHandler) (f : Ptr Obj) (len : Nat → Nat) : Prop :=
  ∀ L s, ((call (h f L) s).1.1 = .exNone → (call (h f L) s).1.2 = len L) ∧ SameFrame f s (call (h f L) s).2

variable {L v : Nat}

theorem ret_echoes {e : MBException} (he : e ≠ .exNone) : Meets (SameFrame f s) (pure (e, L))
    fun r t => (r.1 = .exNone → r.2 = v) ∧ SameFrame f s t :=
  fun _ h => ⟨fun h' => absurd h' he, h⟩

theorem finish_echoes {x : StoreM MBErrorCode} (hx : Preserves (SameFrame f s) x) :
    Meets (SameFrame f s) (do let e ← x; finish e L v)
      fun r t => (r.1 = .exNone → r.2 = v) ∧ SameFrame f s t := by
  refine Preserves.seq hx fun e => ?_
  rw [finish]
  refine Meets.ite (fun he => ret_echoes ?_) fun _ t h => ⟨fun _ => rfl, h⟩
  cases e with
  | enoerr => exact absurd rfl he
  | _ => decide

theorem writeCoil_echoes (hf : ¬ f.obj.IsMap) (hb : f.obj ≠ .ucBuf) : Echoes eMBFuncWriteCoil f id := by
  intro L s
  have h : Meets (SameFrame f s) (eMBFuncWriteCoil f L)
      fun r t => (r.1 = .exNone → r.2 = L) ∧ SameFrame f s t := by
    refine Meets.ite (fun _ => ?_) fun _ => ret_echoes (by decide)
    refine Preserves.seq (rdWord_keeps _) fun _ => Preserves.seq (rd_keeps _) fun _ =>
      Preserves.seq (rd_keeps _) fun _ => Meets.ite (fun _ => ?_) fun _ => ret_echoes (by decide)
    exact Preserves.seq (wr_keeps hb _) fun _ => Preserves.seq (wr_keeps hb _) fun _ =>
      finish_echoes (coilsWrite_keeps (fun e => hf (Or.inl e)) _ _ _)
  exact h s rfl

theorem writeMultipleCoils_echoes (hf : ¬ f.obj.IsMap) : Echoes eMBFuncWriteMultipleCoils f fun _ => 5 := by
  intro L s
  have h : Meets (SameFrame f s) (eMBFuncWriteMultipleCoils f L)
      fun r t => (r.1 = .exNone → r.2 = 5) ∧ SameFrame f s t := by
    refine Meets.ite (fun _ => ?_) fun _ => ret_echoes (by decide)
    refine Preserves.seq (rdWord_keeps _) fun _ => Preserves.seq (rdWord_keeps _) fun _ =>
      Preserves.seq (rd_keeps _) fun _ => Meets.ite (fun _ => ?_) fun _ => ret_echoes (by decide)
    exact finish_echoes (coilsWrite_keeps (fun e => hf (Or.inl e)) _ _ _)
  exact h s rfl

theorem writeHoldingRegister_echoes : Echoes eMBFuncWriteHoldingRegister f id := by
  intro L s
  have h : Meets (SameFrame f s) (eMBFuncWriteHoldingRegister f L)
      fun r t => (r.1 = .exNone → r.2 = L) ∧ SameFrame f s t := by
    refine Meets.ite (fun _ => ?_) fun _ => ret_echoes (by decide)
    exact Preserves.seq (rdWord_keeps _) fun _ => finish_echoes (holdingWrite_keeps _ _ _)
  exact h s rfl

theorem writeMultipleHoldingRegister_echoes : Echoes eMBFuncWriteMultipleHoldingRegister f fun _ => 5 := by
  intro L s
  have h : Meets (SameFrame f s) (eMBFuncWriteMultipleHoldingRegister f L)
      fun r t => (r.1 = .exNone → r.2 = 5) ∧ SameFrame f s t := by
    refine Meets.ite (fun _ => ?_) fun _ => ret_echoes (by decide)
    refine Preserves.seq (rdWord_keeps _) fun _ => Preserves.seq (rdWord_keeps _) fun _ =>
      Preserves.seq (rd_keeps _) fun _ => Meets.ite (fun _ => ?_) fun _ => ret_echoes (by decide)
    exact finish_echoes (holdingWrite_keeps _ _ _)
  exact h s rfl

end Keeps

/-! ## The handlers that write -/

theorem spillCoils_eq_self {m : Maps} {a n : Nat} {g : Nat → Bool}
    (h : ∀ i, n ≤ i → i < 8 * ((n + 7) / 8) → g i = false) : spillCoils m a n g = m := by
  have hspill : spill m.coil a n g = m.coil := by
    funext k
    rw [spill]
    split
    · rw [h _ (by omega) (by omega), Bool.or_false]
    · rfl
  rw [spillCoils, hspill]

/-- The bytes of `n` bits. -/
theorem nBytes_eq (n : USHORT) : nBytes n = BitVec.ofNat 8 ((n.toNat + 7) / 8) := by
  have hand : (n &&& 0x0007).toNat = n.toNat % 8 := by
    rw [BitVec.toNat_and]
    exact Nat.and_two_pow_sub_one_eq_mod _ 3
  rw [nBytes]
  split
  · rename_i h
    have : (n &&& 0x0007).toNat ≠ 0 := fun e => h (BitVec.eq_of_toNat_eq e)
    congr 1
    omega
  · rename_i h
    have : (n &&& 0x0007).toNat = 0 := congrArg BitVec.toNat (not_not.mp h)
    congr 1
    omega

section Serves

variable {f : Ptr Obj} {L : Nat} {s : Store} {h : MBFunctionHandler}

/-- A handler that writes has served the request if its exception and its maps are those of
the answer. -/
theorem Echoes.serves {len : Nat → Nat} (he : Echoes h f len) {m : Maps} {c : MBException}
    (hlen : c = .exNone → len L ≤ L) (hr : result (call (h f L) s) = (c, m)) :
    Serves (if c = .exNone then .reply ((s.mem.slice f L).take (len L)) else .refused c.code, m) f
      (call (h f L) s) := by
  obtain ⟨hret, hframe⟩ := he L s
  have hcode : (call (h f L) s).1.1 = c := congrArg Prod.fst hr
  refine ⟨?_, congrArg Prod.snd hr⟩
  by_cases hc : c = .exNone
  · have htake := take_slice (f := f) (s := s) (hlen hc)
    rw [if_pos hc, htake]
    refine ⟨Prod.ext (hcode.trans hc) ?_, ?_⟩
    · rw [hret (hcode.trans hc), Mem.length_slice]
    · rw [Mem.length_slice]
      exact hframe.slice _
  · rw [if_neg hc]
    exact ⟨fun e => hc (hcode.symm.trans e), congrArg _ hcode⟩

/-- The answer and the maps of a service that checks a range. -/
theorem Echoes.serves_checked {len : Nat → Nat} (he : Echoes h f len) {valid inMap : Prop}
    [Decidable valid] [Decidable inMap] {m : Maps} {pdu : Pdu} (hlen : valid → len L ≤ L)
    (hpdu : pdu = (s.mem.slice f L).take (len L))
    (hr : result (call (h f L) s) =
      if valid then if inMap then (.exNone, m) else (.exIllegalDataAddress, s.maps)
      else (.exIllegalDataValue, s.maps)) :
    Serves (if valid then if inMap then (.reply pdu, m) else (.refused 2, s.maps) else (.refused 3, s.maps)) f
      (call (h f L) s) := by
  subst hpdu
  by_cases hv : valid
  · rw [if_pos hv] at hr ⊢
    by_cases hi : inMap
    · rw [if_pos hi] at hr ⊢
      exact he.serves (fun _ => hlen hv) hr
    · rw [if_neg hi] at hr ⊢
      exact he.serves (c := .exIllegalDataAddress) nofun hr
  · rw [if_neg hv] at hr ⊢
    exact he.serves (c := .exIllegalDataValue) nofun hr

theorem ite_and_ite {α : Type} {p q : Prop} [Decidable p] [Decidable q] (x y : α) :
    (if p then if q then x else y else y) = if p ∧ q then x else y := by
  by_cases hp : p <;> simp [hp]

variable (hf : ¬ f.obj.IsMap)

include hf in
theorem writeCoil_serves (hb : f.obj ≠ .ucBuf) :
    Serves (Server.writeCoil (s.mem.slice f L) s.server) f (call (eMBFuncWriteCoil f L) s) := by
  refine (writeCoil_echoes hf hb).serves_checked (fun _ => Nat.le_refl L)
    (List.take_of_length_le (by simp)).symm ?_
  rw [writeCoil_result, ite_and_ite, Mem.length_slice]
  refine if_ctx_congr ?_ (fun hc => ?_) fun _ => rfl
  · refine and_congr_right fun hL => ?_
    subst hL
    rw [slice_byte (by decide), slice_byte (by decide)]
    rfl
  · obtain ⟨rfl, -, -⟩ := hc
    rw [slice_word (by decide), slice_byte (by decide), coilsResult, spillCoils_eq_self fun i hi _ => ?_]
    · refine if_congr Iff.rfl (congrArg _ ?_) rfl
      refine congrArg (fun c => { s.maps with coil := c }) (patch_congr fun i hi => ?_)
      have hi : i < 1 := hi
      simp [Nat.lt_one_iff.mp hi]
    · exact decide_eq_false fun h => absurd (h.1 ▸ hi) (by decide)

include hf in
theorem writeMultipleCoils_serves (hpad : 6 ≤ L → 6 + (s.byte f 5).toNat ≤ L ∧
      ∀ i < 8 * (s.byte f 5).toNat, (s.word f 3).toNat ≤ i → bitAt (s.byte (f.add 6)) i = false) :
    Serves (Server.writeCoils (s.mem.slice f L) s.server) f (call (eMBFuncWriteMultipleCoils f L) s) := by
  refine (writeMultipleCoils_echoes hf).serves_checked (fun hv => ?_) rfl ?_
  · have h6 := hv.1
    rw [Mem.length_slice] at h6
    omega
  · rw [writeMultipleCoils_result _ _ _ hf, ite_and_ite, Mem.length_slice]
    have hbytes : nBytes (s.word f 3) = s.byte f 5 ∧ (s.word f 3).toNat ≤ 1968 ↔
        (s.byte f 5).toNat = ((s.word f 3).toNat + 7) / 8 ∧ (s.word f 3).toNat ≤ 1968 := by
      rw [nBytes_eq, ← BitVec.toNat_inj, BitVec.toNat_ofNat]
      omega
    refine if_ctx_congr ?_ (fun hc => ?_) fun _ => rfl
    · refine and_congr_right fun hL => ?_
      rw [slice_word (by omega), slice_byte (by omega), ValidCoils]
      tauto
    · obtain ⟨hL, -, -, hbc⟩ := hc
      obtain ⟨hlen, hzero⟩ := hpad hL
      rw [slice_word (by omega), slice_byte (by omega)] at hbc
      rw [slice_word (by omega), slice_word (by omega), coilsResult,
        spillCoils_eq_self fun i hi hi' => hzero i (by omega) hi]
      refine if_congr Iff.rfl (congrArg _ ?_) rfl
      refine congrArg (fun c => { s.maps with coil := c }) (patch_congr fun i hi => ?_)
      have hi : i < (s.word f 3).toNat := hi
      rw [bitAt, bitAt, slice_byte (by omega), Store.byte_add]

theorem writeHoldingRegister_serves :
    Serves (Server.writeRegister (s.mem.slice f L) s.server) f (call (eMBFuncWriteHoldingRegister f L) s) := by
  refine writeHoldingRegister_echoes.serves_checked (fun _ => Nat.le_refl L)
    (List.take_of_length_le (by simp)).symm ?_
  rw [writeHoldingRegister_result, Mem.length_slice]
  refine if_ctx_congr Iff.rfl (fun hL => ?_) fun _ => rfl
  subst hL
  rw [slice_word (by decide), slice_word (by decide), holdingResult]
  refine if_congr Iff.rfl (congrArg _ (Maps.writeHolding_congr _ fun i hi => ?_)) rfl
  have hi : i < 1 := hi
  rw [Nat.lt_one_iff.mp hi, Store.word_add]

theorem writeMultipleHoldingRegister_serves (hlen : 6 ≤ L → 6 + (s.byte f 5).toNat ≤ L) :
    Serves (Server.writeRegisters (s.mem.slice f L) s.server) f
      (call (eMBFuncWriteMultipleHoldingRegister f L) s) := by
  refine writeMultipleHoldingRegister_echoes.serves_checked (fun hv => ?_) rfl ?_
  · have h6 := hv.1
    rw [Mem.length_slice] at h6
    omega
  · rw [writeMultipleHoldingRegister_result, ite_and_ite, Mem.length_slice]
    have hbytes : s.byte f 5 = BitVec.ofNat 8 (2 * (s.word f 3).toNat) ∧ (s.word f 3).toNat ≤ 120 ↔
        (s.byte f 5).toNat = 2 * (s.word f 3).toNat ∧ (s.word f 3).toNat ≤ 120 := by
      rw [← BitVec.toNat_inj, BitVec.toNat_ofNat]
      omega
    refine if_ctx_congr ?_ (fun hc => ?_) fun _ => rfl
    · refine and_congr_right fun hL => ?_
      rw [slice_word (by omega), slice_byte (by omega), ValidHolding]
      tauto
    · obtain ⟨hL, -, -, hbc⟩ := hc
      have hL := hlen hL
      rw [slice_word (by omega), slice_byte (by omega)] at hbc
      rw [slice_word (by omega), slice_word (by omega), holdingResult]
      refine if_congr Iff.rfl (congrArg _ (Maps.writeHolding_congr _ fun i hi => ?_)) rfl
      rw [slice_word (by omega), Store.word_add]

/-! ## The handlers that read -/

theorem Answers.returns {r : (MBException × Nat) × Store} {code : UCHAR} {regs : Nat → USHORT} {a n : USHORT}
    {max : Nat} (h : Answers r f code regs a n max) :
    Returns (if 1 ≤ n.toNat ∧ n.toNat ≤ max then Server.registers code regs a.toNat n.toNat else .refused 3)
      f r := by
  have hval := h.val
  by_cases hn : 1 ≤ n.toNat ∧ n.toNat ≤ max
  · rw [if_pos hn] at hval ⊢
    rw [Server.registers]
    by_cases hin : InMap a n 100
    · rw [if_pos hin] at hval
      rw [if_pos (show a.toNat + n.toNat ≤ 100 from hin)]
      have hlen (g : Nat → USHORT) (b c : UCHAR) : (b :: c :: words g n.toNat).length = 2 + 2 * n.toNat := by
        rw [List.length_cons, List.length_cons, length_words]
        omega
      refine ⟨?_, ?_⟩
      · rw [hval, hlen]
      · rw [hlen]
        exact h.slice hn hin
    · rw [if_neg hin] at hval
      rw [if_neg (show ¬ a.toNat + n.toNat ≤ 100 from hin)]
      exact ⟨by rw [hval]; decide, by rw [hval]; rfl⟩
  · rw [if_neg hn] at hval ⊢
    exact ⟨by rw [hval]; decide, by rw [hval]; rfl⟩

/-- A request that changes nothing. -/
theorem Answers.serves {r : (MBException × Nat) × Store} {code : UCHAR} {regs : Nat → USHORT} {a n : USHORT}
    {max : Nat} {m : Maps} {c : Prop} [Decidable c] (h : Answers r f code regs a n max) (hm : r.2.maps = m)
    (hc : c ↔ 1 ≤ n.toNat ∧ n.toNat ≤ max) :
    Serves (if c then (Server.registers code regs a.toNat n.toNat, m) else (.refused 3, m)) f r := by
  have hret := h.returns
  by_cases hn : 1 ≤ n.toNat ∧ n.toNat ≤ max
  · rw [if_pos hn] at hret
    rw [if_pos (hc.mpr hn)]
    exact ⟨hret, hm⟩
  · rw [if_neg hn] at hret
    rw [if_neg fun h => hn (hc.mp h)]
    exact ⟨hret, hm⟩

theorem serves_value {r : (MBException × Nat) × Store} (h : r.1.1 = .exIllegalDataValue) :
    Serves (.refused 3, r.2.maps) f r :=
  ⟨⟨by rw [h]; decide, by rw [h]; rfl⟩, rfl⟩

include hf in
theorem readInputRegister_serves : Serves (Server.readRegisters 4 Maps.input 124 (s.mem.slice f L) s.server) f
    (call (eMBFuncReadInputRegister f L) s) := by
  have hmaps := ((frameAccess_maps s.maps hf).readInputRegister L s rfl).2
  rw [Server.readRegisters, Mem.length_slice]
  by_cases hL : L = 5
  · subst hL
    rw [slice_word (by decide), slice_word (by decide)]
    exact (readInputRegister_answers f s).serves hmaps (and_iff_right rfl)
  · have hval : (call (eMBFuncReadInputRegister f L) s).1.1 = .exIllegalDataValue := by
      rw [eMBFuncReadInputRegister, call_ite, if_neg hL]
      rfl
    rw [if_neg fun h => hL h.1, show s.server.maps = _ from hmaps.symm]
    exact serves_value hval

include hf in
theorem readHoldingRegister_serves (hhi : L = 5 → s.byte f 3 = 0) :
    Serves (Server.readRegisters 3 Maps.holding 125 (s.mem.slice f L) s.server) f
      (call (eMBFuncReadHoldingRegister f L) s) := by
  have hmaps := ((frameAccess_maps s.maps hf).readHoldingRegister L s rfl).2
  rw [Server.readRegisters, Mem.length_slice]
  by_cases hL : L = 5
  · subst hL
    have hcount : (s.byte f 4).setWidth 16 = s.word f 3 := by
      apply BitVec.eq_of_toNat_eq
      rw [Store.word_toNat, hhi rfl, BitVec.toNat_setWidth]
      have := (s.byte f 4).isLt
      simp
      omega
    rw [slice_word (by decide), slice_word (by decide)]
    have hans := readHoldingRegister_answers f s
    rw [hcount] at hans
    exact hans.serves hmaps (and_iff_right rfl)
  · have hval : (call (eMBFuncReadHoldingRegister f L) s).1.1 = .exIllegalDataValue := by
      rw [eMBFuncReadHoldingRegister, call_ite, if_neg hL]
      rfl
    rw [if_neg fun h => hL h.1, show s.server.maps = _ from hmaps.symm]
    exact serves_value hval

include hf in
theorem readWriteMultipleHoldingRegister_serves (hlen : 10 ≤ L → 10 + (s.byte f 9).toNat ≤ L) :
    Serves (Server.writeReadRegisters (s.mem.slice f L) s.server) f
      (call (eMBFuncReadWriteMultipleHoldingRegister f L) s) := by
  have hres := readWriteMultipleHoldingRegister_result f L s hf
  rw [Server.writeReadRegisters, Mem.length_slice]
  by_cases hL : L < 10
  · rw [if_neg (by omega)] at hres
    rw [if_pos hL]
    refine ⟨⟨?_, ?_⟩, congrArg Prod.snd hres⟩
    · rw [eMBFuncReadWriteMultipleHoldingRegister, call_ite, if_neg (by omega), Mem.length_slice]
      rfl
    · rw [eMBFuncReadWriteMultipleHoldingRegister, call_ite, if_neg (by omega), Mem.length_slice]
      rfl
  · have hL := Nat.le_of_not_lt hL
    have hlen := hlen hL
    rw [if_pos hL] at hres
    rw [if_neg (by omega), slice_word (by omega), slice_word (by omega), slice_word (by omega),
      slice_word (by omega), slice_byte (by omega)]
    by_cases hv : ValidReadWrite f s
    · obtain ⟨h1, h2, h3, h4, hbc⟩ := id hv
      rw [if_pos hv] at hres
      rw [if_pos ⟨h1, h2, h3, h4, hbc.symm⟩]
      have hvals : ∀ i < (s.word f 7).toNat,
          Pdu.word (s.mem.slice f L) (10 + 2 * i) = s.word (f.add 10) (2 * i) := by
        intro i hi
        rw [slice_word (by omega), Store.word_add]
      rw [Maps.writeHolding_congr _ hvals]
      by_cases hw : InMap (s.word f 5) (s.word f 7) sRegHoldingNRegs
      · obtain ⟨v, hmaps, hcall⟩ := readWrite_call hL hv hw
        rw [if_pos hw] at hres
        obtain ⟨hval, -, hslice⟩ := readReply_regs (holdingCB_reads (s.word f 1) (s.word f 3)) f 23
          (BitVec.ofNat 8 ((s.word f 3).toNat * 2)) v rfl
        rw [← hcall] at hval hslice
        rw [Nat.mul_comm _ 2] at hslice
        have hans : Answers (call (eMBFuncReadWriteMultipleHoldingRegister f L) s) f 23 v.maps.holding
            (s.word f 1) (s.word f 3) 125 :=
          ⟨by rw [if_pos ⟨h1, h2⟩]; exact hval, fun _ hin => hslice hin⟩
        have hret := hans.returns
        rw [if_pos ⟨h1, h2⟩, hmaps] at hret
        rw [if_pos (show (s.word f 5).toNat + (s.word f 7).toNat ≤ 100 from hw)]
        exact ⟨hret, congrArg Prod.snd hres⟩
      · rw [if_neg hw] at hres
        rw [if_neg (show ¬ (s.word f 5).toNat + (s.word f 7).toNat ≤ 100 from hw)]
        have hex : (call (eMBFuncReadWriteMultipleHoldingRegister f L) s).1.1 = .exIllegalDataAddress :=
          congrArg Prod.fst hres
        exact ⟨⟨by rw [hex]; decide, by rw [hex]; rfl⟩, congrArg Prod.snd hres⟩
    · rw [if_neg hv] at hres
      rw [if_neg fun h => hv ⟨h.1, h.2.1, h.2.2.1, h.2.2.2.1, h.2.2.2.2.symm⟩]
      have hmaps : s.server.maps = _ := (congrArg Prod.snd hres).symm
      rw [hmaps]
      exact serves_value (congrArg Prod.fst hres)

/-! ### Bits -/

theorem byte_ext {d d' : Nat → UCHAR} {i : Nat} (h : ∀ j < 8, bitAt d (8 * i + j) = bitAt d' (8 * i + j)) :
    d i = d' i := by
  refine BitVec.eq_of_getLsbD_eq fun j hj => ?_
  have := h j hj
  rwa [bitAt, bitAt, show (8 * i + j) / 8 = i by omega, show (8 * i + j) % 8 = j by omega] at this

/-- What is before the reply stays. -/
theorem readBits_before {o : Obj} (a n : USHORT) {p q : Ptr Obj} (hp : p.obj ≠ o) (hq : q.obj = p.obj)
    (h : q.off < p.off) : (call (readBits o p a n) s).2.mem.data q.obj q.off = s.mem.data q.obj q.off := by
  rw [hq]
  refine byte_ext fun j hj => ?_
  rw [bitAt_readBits o a n s hp, patch_outside _ _ _ (by omega)]

/-- The bytes of the reply. -/
theorem slice_packed {p : Ptr Obj} {t : Store} {g : Nat → Bool} {n : Nat}
    (hin : ∀ i < n, (t.byte p (i / 8)).getLsbD (i % 8) = g i)
    (hpad : ∀ i, n ≤ i → i < 8 * ((n + 7) / 8) → (t.byte p (i / 8)).getLsbD (i % 8) = false) :
    t.mem.slice p ((n + 7) / 8) = Server.packed g n := by
  refine List.map_congr_left fun k hk => BitVec.eq_of_getLsbD_eq fun j hj => ?_
  have hk := List.mem_range.mp hk
  have hin := hin (8 * k + j)
  have hpad := hpad (8 * k + j)
  rw [show (8 * k + j) / 8 = k by omega, show (8 * k + j) % 8 = j by omega] at hin hpad
  rw [show t.mem.data p.obj (p.off + k) = t.byte p k from rfl, BitVec.getLsbD_ofNat,
    Nat.testBit_ofBits_lt _ _ hj]
  by_cases hlt : 8 * k + j < n
  · rw [hin hlt]
    simp [hlt, show j < 8 from hj]
  · rw [hpad (by omega) (by omega)]
    simp [hlt]

/-- `cb` reads the bits of `o`. -/
def ReadsBits (o : Obj) (cb : Ptr Obj → USHORT → USHORT → StoreM MBErrorCode) : Prop :=
  ∀ p a n s, call (cb p (a + 1) n) s =
    if InMap a n 64 then (.enoerr, (call (readBits o p a n) s).2) else (.enoreg, s)

theorem coilsCB_reads : ReadsBits .ucSCoilBuf fun p a n => eMBRegCoilsCB p a n .regRead := by
  intro p a n s
  show call (eMBRegCoilsCB p (a + 1) n .regRead) s = _
  rw [eMBRegCoilsCB, BitVec.add_sub_cancel, call_ite]
  rfl

theorem discreteCB_reads : ReadsBits .ucSDiscInBuf eMBRegDiscreteCB := by
  intro p a n s
  rw [eMBRegDiscreteCB, BitVec.add_sub_cancel, call_ite]
  rfl

/-- The reply to a read of bits. -/
theorem readReply_bits {o : Obj} (ho : o.IsMap) {cb : Ptr Obj → USHORT → USHORT → StoreM MBErrorCode}
    (hcb : ReadsBits o cb) (hf : ¬ f.obj.IsMap) (c : UCHAR) (a n : USHORT) (t : Store) :
    Returns (if a.toNat + n.toNat ≤ 64 then
        .reply (c :: BitVec.ofNat 8 ((n.toNat + 7) / 8) ::
          Server.packed (fun i => bitAt (t.mem.data o) (a.toNat + i)) n.toNat)
      else .refused 2) f
      (call (readReply f c (nBytes n) (nBytes n).toNat fun p => cb p (a + 1) n) t) := by
  have hfo : f.obj ≠ o := fun e => hf (e ▸ ho)
  let u := (call (wr (f.add 1) (nBytes n)) (call (wr f c) t).2).2
  have hu : u.mem.data o = t.mem.data o :=
    (Mem.store_data_obj (call (wr f c) t).2.mem (p := f.add 1) _ hfo.symm).trans
    (Mem.store_data_obj _ _ hfo.symm)
  have hval := hcb (f.add 2) a n u
  have hcall : call (readReply f c (nBytes n) (nBytes n).toNat fun p => cb p (a + 1) n) t =
      call (finish (call (cb (f.add 2) (a + 1) n) u).1 2 (2 + (nBytes n).toNat))
        (call (cb (f.add 2) (a + 1) n) u).2 := rfl
  rw [hcall]
  by_cases hin : InMap a n 64
  · have hn : (nBytes n).toNat = (n.toNat + 7) / 8 := by
      rw [nBytes_eq, BitVec.toNat_ofNat]
      rw [InMap] at hin
      omega
    rw [if_pos hin] at hval
    obtain ⟨-, hbits, hpad, -⟩ := exactBitRead (f.add 2) u hf ho rfl rfl hval
    have hslice := slice_packed hbits hpad
    rw [hval] at hslice ⊢
    rw [if_pos (show a.toNat + n.toNat ≤ 64 from hin), ← nBytes_eq]
    have hlen (g : Nat → Bool) : (c :: nBytes n :: Server.packed g n.toNat).length = 2 + (nBytes n).toNat := by
      rw [List.length_cons, List.length_cons, Server.packed, List.length_map, List.length_range, hn]
      omega
    refine ⟨by rw [hlen]; rfl, ?_⟩
    have hbefore (i : Nat) (hi : i < 2) := readBits_before (s := u) a n (p := f.add 2) (q := f.add i) hfo rfl
      (Nat.add_lt_add_left hi f.off)
    rw [hlen, hn, show 2 + (n.toNat + 7) / 8 = (n.toNat + 7) / 8 + 1 + 1 by omega, Mem.slice_cons,
      Mem.slice_cons, Ptr.add_add]
    refine congrArg₂ List.cons ?_ (congrArg₂ List.cons ?_ ?_)
    · refine (hbefore 0 (by decide)).trans ?_
      simp [u, Mem.store_data]
    · refine (hbefore 1 (by decide)).trans ?_
      simp [u, Mem.store_data]
    · rw [← hu]
      exact hslice
  · rw [if_neg hin] at hval
    rw [hval, if_neg (show ¬ a.toNat + n.toNat ≤ 64 from hin)]
    exact ⟨MBException.noConfusion, rfl⟩

include hf in
theorem readBitsRequest_serves {o : Obj} (ho : o.IsMap) {cb : Ptr Obj → USHORT → USHORT → StoreM MBErrorCode}
    (hcb : ReadsBits o cb) {c : UCHAR} {bits : Maps → Nat → Bool} (hbits : bits s.maps = bitAt (s.mem.data o))
    (hmaps : (call (readBitsRequest c cb f L) s).2.maps = s.maps) :
    Serves (Server.readBits c bits (s.mem.slice f L) s.server) f (call (readBitsRequest c cb f L) s) := by
  rw [Server.readBits, Mem.length_slice]
  by_cases hL : L = 5
  · subst hL
    let t := (call (rdWord (f.add 3)) (call (rdWord (f.add 1)) s).2).2
    have hcall : call (readBitsRequest c cb f 5) s =
        if 1 ≤ (s.word f 3).toNat ∧ (s.word f 3).toNat < 0x07D0 then
          call (readReply f c (nBytes (s.word f 3)) (nBytes (s.word f 3)).toNat
            fun p => cb p (s.word f 1 + 1) (s.word f 3)) t
        else ((.exIllegalDataValue, 5), t) := by
      rw [readBitsRequest, call_ite, if_pos rfl, call_bind, call_bind, call_ite]
      rfl
    rw [slice_word (by decide), slice_word (by decide)]
    by_cases hn : 1 ≤ (s.word f 3).toNat ∧ (s.word f 3).toNat < 2000
    · rw [if_pos hn] at hcall
      have hret := readReply_bits ho hcb hf c (s.word f 1) (s.word f 3) t
      rw [← hcall] at hret
      rw [if_pos ⟨rfl, hn⟩]
      simp only [Store.server, hbits]
      split
      · rename_i h
        rw [if_pos h] at hret
        exact ⟨hret, hmaps⟩
      · rename_i h
        rw [if_neg h] at hret
        exact ⟨hret, hmaps⟩
    · rw [if_neg hn] at hcall
      rw [if_neg fun h => hn h.2, show s.server.maps = _ from hmaps.symm]
      exact serves_value (by rw [hcall])
  · have hval : (call (readBitsRequest c cb f L) s).1.1 = .exIllegalDataValue := by
      rw [readBitsRequest, call_ite, if_neg hL]
      rfl
    rw [if_neg fun h => hL h.1, show s.server.maps = _ from hmaps.symm]
    exact serves_value hval

/-! ### The identification -/

theorem copyIn_data (src : Nat → UCHAR) (dst : Ptr Obj) (n : Nat) (s : Store) :
    (call (copyIn src dst n) s).2.mem.data =
      Function.update s.mem.data dst.obj (patch (s.mem.data dst.obj) dst.off n src) := by
  induction n with
  | zero => rw [patch_zero, Function.update_eq_self]; rfl
  | succ n ih =>
    let t := (call (copyIn src dst n) s).2
    have hself : (t.mem.store (dst.add n) (src n)).data dst.obj =
        Function.update (t.mem.data dst.obj) (dst.off + n) (src n) := Mem.store_data_self t.mem (dst.add n) _
    show (t.mem.store (dst.add n) (src n)).data = _
    funext o
    by_cases ho : o = dst.obj
    · rw [ho, hself, show t.mem.data = _ from ih, Function.update_self, Function.update_self]
      funext k
      rw [Function.update_apply, patch, patch]
      by_cases hk : k = dst.off + n
      · rw [if_pos hk, if_pos (by omega), hk, Nat.add_sub_cancel_left]
      · rw [if_neg hk]
        exact if_congr (by omega) rfl rfl
    · rw [Mem.store_data_obj t.mem (p := dst.add n) _ ho, show t.mem.data = _ from ih, Function.update_of_ne ho,
        Function.update_of_ne ho]

include hf in
theorem reportSlaveID_serves (hL : 1 ≤ L) :
    Serves (Server.reportId (s.mem.slice f L) s.server) f (call (eMBFuncReportSlaveID f L) s) := by
  refine ⟨⟨?_, ?_⟩, ((frameAccess_maps s.maps hf).reportSlaveID L s rfl).2⟩
  · refine Prod.ext rfl ?_
    simp only [Store.server, List.length_cons, List.length_map, List.length_range]
    exact Nat.add_comm _ _
  · have hdata := copyIn_data s.slaveID.ucMBSlaveID (f.add 1) s.slaveID.usMBSlaveIDLen s
    rw [Ptr.add_obj, Ptr.add_off] at hdata
    rw [slice_byte (by omega), Store.server, List.length_cons, List.length_map, List.length_range,
      Mem.slice_cons]
    show (call (copyIn _ _ _) s).2.mem.data f.obj f.off :: (call (copyIn _ _ _) s).2.mem.slice _ _ = _
    refine congrArg₂ List.cons ?_ (List.map_congr_left fun i hi => ?_)
    · rw [hdata, Function.update_self, patch_outside _ _ _ (by omega)]
      rfl
    · rw [Ptr.add_obj, Ptr.add_off, hdata, Function.update_self, patch_inside _ _ _ (List.mem_range.mp hi)]

/-! ## All of them -/

/-- Every registered handler is the service of its function code. -/
theorem xFuncHandlers_serve (hf : ¬ f.obj.IsMap) (hb : f.obj ≠ .ucBuf) {c : UCHAR} (hm : (c, h) ∈ xFuncHandlers)
    (hL : 1 ≤ L) (hc : s.byte f 0 = c) (hreg : Regular (s.mem.slice f L)) :
    ∃ g, Server.service c = some g ∧ Serves (g (s.mem.slice f L) s.server) f (call (h f L) s) := by
  have hF := frameAccess_maps s.maps hf
  obtain ⟨h3, h15, h16, h23⟩ := hreg
  rw [slice_byte (by omega), hc, Mem.length_slice] at h15 h16 h23
  rw [slice_byte (by omega), hc] at h3
  simp only [xFuncHandlers, List.mem_cons, Prod.mk.injEq, List.not_mem_nil, or_false] at hm
  rcases hm with ⟨rfl, rfl⟩ | ⟨rfl, rfl⟩ | ⟨rfl, rfl⟩ | ⟨rfl, rfl⟩ | ⟨rfl, rfl⟩ | ⟨rfl, rfl⟩ | ⟨rfl, rfl⟩ |
    ⟨rfl, rfl⟩ | ⟨rfl, rfl⟩ | ⟨rfl, rfl⟩
  · exact ⟨_, rfl, reportSlaveID_serves hf hL⟩
  · exact ⟨_, rfl, readInputRegister_serves hf⟩
  · refine ⟨_, rfl, readHoldingRegister_serves hf fun h5 => ?_⟩
    have := h3 rfl
    rwa [slice_byte (by omega)] at this
  · refine ⟨_, rfl, writeMultipleHoldingRegister_serves fun h => ?_⟩
    have := h16 rfl h
    rwa [slice_byte (by omega)] at this
  · exact ⟨_, rfl, writeHoldingRegister_serves⟩
  · refine ⟨_, rfl, readWriteMultipleHoldingRegister_serves hf fun h => ?_⟩
    have := h23 rfl h
    rwa [slice_byte (by omega)] at this
  · exact ⟨_, rfl, readBitsRequest_serves hf (Or.inl rfl) coilsCB_reads rfl (hF.readCoils L s rfl).2⟩
  · exact ⟨_, rfl, writeCoil_serves hf hb⟩
  · refine ⟨_, rfl, writeMultipleCoils_serves hf fun h => ?_⟩
    obtain ⟨hlen, hpad⟩ := h15 rfl h
    rw [slice_byte (by omega)] at hlen hpad
    rw [slice_word (by omega)] at hpad
    refine ⟨hlen, fun i hi hn => ?_⟩
    have := hpad i hi hn
    rwa [bitAt, slice_byte (by omega), ← Store.byte_add] at this
  · exact ⟨_, rfl, readBitsRequest_serves hf (Or.inr rfl) discreteCB_reads rfl
      (hF.readDiscreteInputs L s rfl).2⟩

end Serves

/-! ## `EV_EXECUTE` -/

theorem service_isNone : ∀ c : UCHAR, (findHandler c xFuncHandlers).isNone = true →
    (Server.service c).isNone = true := by
  decide +kernel

section Execute

variable {v : PollVars} {s : Store} (hf : ¬ v.ucMBFrame.obj.IsMap)

/-- A handler keeps the identification. -/
theorem slaveID_access (f : Ptr Obj) (c : SlaveID) :
    FrameAccess (fun s => s.slaveID = c) f ∧ MapAccess fun s => s.slaveID = c :=
  ⟨⟨fun _ _ _ h => h, fun _ _ _ _ h => h, fun _ _ _ _ _ _ h => h, fun _ _ h => h⟩,
    ⟨fun _ _ _ _ _ h => h, fun _ _ _ h => h, fun _ _ _ h => h, fun _ _ _ _ h => h⟩⟩

/-- What is written outside the maps leaves the server. -/
theorem Writes.server (c : Server.State) {p : Ptr Obj} (hp : ¬ p.obj.IsMap) (n : Nat) :
    Writes (fun s => s.server = c) p n := by
  intro i _ w t h
  have hm : (call (wr (p.add i) w) t).2.maps = t.maps := Store.maps_store (p := p.add i) hp w
  exact (congrArg (fun m => { t.server with maps := m }) hm).trans h

theorem server_access {f : Ptr Obj} (hf : ¬ f.obj.IsMap) (c : Server.State) :
    FrameAccess (fun s => s.server = c) f :=
  ⟨fun _ _ _ h => h, Writes.server c hf _, fun _ _ _ _ _ _ h => h, fun _ _ h => h⟩

/-- The static variables that the handler does not return. -/
theorem pollExecute_vars (v : PollVars) (s : Store) : (call (pollExecute v) s).1.ucMBFrame = v.ucMBFrame ∧
    (call (pollExecute v) s).1.ucRcvAddress = v.ucRcvAddress ∧
    (call (pollExecute v) s).1.ucFunctionCode = s.byte v.ucMBFrame 0 := by
  rw [pollExecute, call_bind]
  cases hfind : findHandler (call (rd v.ucMBFrame) s).1 xFuncHandlers <;> exact ⟨rfl, rfl, rfl⟩

include hf in
/-- The handler that `eMBPoll` calls serves the request. -/
theorem pollExecute_serves (hb : v.ucMBFrame.obj ≠ .ucBuf) (hL : LenOk v.usLength)
    (hreg : Regular (s.mem.slice v.ucMBFrame v.usLength)) :
    let pdu : Pdu := s.mem.slice v.ucMBFrame v.usLength
    let r := call (pollExecute v) s
    Serves (Server.serve pdu s.server) v.ucMBFrame ((r.1.eException, r.1.usLength), r.2) ∧
      r.2.slaveID = s.slaveID := by
  intro pdu r
  have hpdu : Pdu.byte (s.mem.slice v.ucMBFrame v.usLength) 0 = s.byte v.ucMBFrame 0 := slice_byte hL.1
  obtain ⟨hF, hM⟩ := slaveID_access v.ucMBFrame s.slaveID
  refine ⟨?_, (pollExecute_ok hF hM rfl hL s rfl).2⟩
  rw [Server.serve, hpdu]
  cases hfind : findHandler (s.byte v.ucMBFrame 0) xFuncHandlers with
  | none =>
    have hnone := service_isNone (s.byte v.ucMBFrame 0) (by rw [hfind]; rfl)
    rw [Option.isNone_iff_eq_none.mp hnone]
    have hfind' : findHandler (call (rd v.ucMBFrame) s).1 xFuncHandlers = none := hfind
    have hr : r = call (pollExecute v) s := rfl
    rw [pollExecute, call_bind, hfind'] at hr
    rw [hr]
    exact ⟨⟨MBException.noConfusion, rfl⟩, rfl⟩
  | some h =>
    obtain ⟨g, hg, hserves⟩ :=
      xFuncHandlers_serve (s := afterFunctionCode v s) hf hb (findHandler_mem hfind) hL.1
      rfl hreg
    have hfind' : findHandler (call (rd v.ucMBFrame) s).1 xFuncHandlers = some h := hfind
    have hr : r = call (pollExecute v) s := rfl
    rw [pollExecute, call_bind, hfind'] at hr
    rw [hg, hr]
    exact hserves

/-- The error frame is that of the answer. -/
theorem errorFrame_serves {x : Answer × Maps} (h : Serves x v.ucMBFrame ((v.eException, v.usLength), s)) :
    (call (errorFrame v) s).1.usLength = (x.1.pdu v.ucFunctionCode).length ∧
      (call (errorFrame v) s).2.mem.slice v.ucMBFrame (x.1.pdu v.ucFunctionCode).length =
        x.1.pdu v.ucFunctionCode := by
  obtain ⟨a, m⟩ := x
  cases a with
  | reply pdu =>
    obtain ⟨⟨hval, hslice⟩, -⟩ := h
    obtain ⟨he, hlen⟩ := Prod.mk.inj hval
    rw [errorFrame, call_ite, if_neg (not_not.mpr he)]
    exact ⟨hlen, hslice⟩
  | refused code =>
    obtain ⟨⟨hne, hcode⟩, -⟩ := h
    rw [errorFrame, call_ite, if_pos hne]
    refine ⟨rfl, ?_⟩
    subst hcode
    show ((s.mem.store v.ucMBFrame _).store (v.ucMBFrame.add 1) _).slice v.ucMBFrame 2 = _
    rw [Mem.slice_cons, Mem.slice_cons]
    simp [Mem.store_data, Answer.pdu, Mem.slice]

end Execute

section ExecuteReply

variable (v : PollVars) (s : Slave) (hf : v.ucMBFrame = s.modbus.ucRTUBuf.add 1) (hL : LenOk v.usLength)
  (hreg : Regular (s.store.mem.slice v.ucMBFrame v.usLength))
include hf hL hreg

/-- `EV_EXECUTE` is served as the abstract server serves the PDU in the buffer: the maps are those
of the server, and if a reply is sent the buffer holds the frame of the answer. -/
theorem executes_as_server :
    let pdu : Pdu := s.store.mem.slice v.ucMBFrame v.usLength
    let reply := (Server.serve pdu s.store.server).1.pdu (pdu.byte 0)
    ∃ v' t, pollExecuteReply v s = .ok (v', t) ∧ t.store.server = s.store.server.after pdu ∧
      (v.ucRcvAddress ≠ mbAddressBroadcast → s.modbus.rcvState = .rxIdle →
        t.store.mem.slice s.modbus.ucRTUBuf (1 + reply.length + 2) = wireFrame s.modbus.ucMBAddress reply) := by
  intro pdu reply
  have hbuffer : ¬ s.modbus.ucRTUBuf.obj.IsMap := by rintro (h | h) <;> cases h
  have hmap : ¬ v.ucMBFrame.obj.IsMap := by
    rw [hf]
    exact hbuffer
  have hbuf : v.ucMBFrame.obj ≠ .ucBuf := by
    rw [hf]
    exact Obj.noConfusion
  obtain ⟨hserves, hid⟩ := pollExecute_serves hmap hbuf hL hreg
  obtain ⟨hframe, haddr, hcode⟩ := pollExecute_vars v s.store
  have hpdu : Pdu.byte pdu 0 = s.store.byte v.ucMBFrame 0 := slice_byte hL.1
  -- The handler is done: the server has served the request.
  let v₁ := (call (pollExecute v) s.store).1
  let s₁ : Slave := { s with store := (call (pollExecute v) s.store).2 }
  have hserver : s₁.store.server = s.store.server.after pdu := by
    have hmaps : s₁.store.maps = (Server.serve pdu s.store.server).2 := hserves.2
    rw [Server.State.after, ← hmaps, Store.server, Store.server, show s₁.store.slaveID = _ from hid]
  have hlen : LenOk v₁.usLength := by
    obtain ⟨hF, hM⟩ := slaveID_access v.ucMBFrame s.store.slaveID
    exact (pollExecute_ok hF hM rfl hL s.store rfl).1.2
  rw [pollExecuteReply, haddr]
  by_cases hb : v.ucRcvAddress ≠ mbAddressBroadcast
  · rw [if_pos hb]
    -- The error frame of an exception leaves the server, and makes up the answer.
    have hF := server_access hmap (s.store.server.after pdu)
    obtain ⟨⟨hframe₂, hlen₂⟩, hserver₂⟩ := errorFrame_ok hF hframe hlen s₁.store hserver
    have hreply := errorFrame_serves (v := v₁) (s := s₁.store) (by rw [hframe]; exact hserves)
    rw [hframe, hcode, ← hpdu] at hreply
    change _ = reply.length ∧ Mem.slice _ _ reply.length = reply at hreply
    obtain ⟨hreply, hslice⟩ := hreply
    let s₂ : Slave := { s₁ with store := (call (errorFrame v₁) s₁.store).2 }
    by_cases hr : s.modbus.rcvState = .rxIdle
    · refine ⟨_, _, pollReply_of_send (eMBRTUSend_idle _ _ _ hr), ?_, fun _ _ => ?_⟩
      · rw [sent, hframe₂, hf]
        exact buildFrame_preserves s₁.modbus _ hlen₂.2 (fun _ _ _ h => h) (Writes.server _ hbuffer _) _ hserver₂
      · have hbuild := buildFrame_slice s.modbus s.modbus.ucMBAddress reply.length s₂.store
        rw [← hf, hslice] at hbuild
        rw [sent, hframe₂, hreply]
        exact hbuild
    · exact ⟨_, _, pollReply_of_send (eMBRTUSend_busy _ _ _ hr), hserver₂, fun _ h => absurd h hr⟩
  · rw [if_neg hb]
    exact ⟨_, _, rfl, hserver, fun h => absurd h hb⟩

end ExecuteReply

/-- The request to set register 2, in the buffer. -/
def registerWritten : Slave :=
  { idleSlave with
    modbus.ucMBAddress := 1, modbus.rcvState := .rxIdle, store := .ofFrame [1, 6, 0, 2, 0x12, 0x34] }

/-- The static variables of `eMBPoll` once it has validated the request. -/
def registerVars : PollVars :=
  { PollVars.reset with ucMBFrame := ⟨.ucRTUBuf 0, 1⟩, ucRcvAddress := 1, usLength := 5 }

theorem executes_as_server_register : ∃ v' t, pollExecuteReply registerVars registerWritten = .ok (v', t) ∧
    t.store.server.maps.holding 2 = 0x1234 ∧
    t.store.mem.slice ⟨.ucRTUBuf 0, 0⟩ 8 = wireFrame 1 [6, 0, 2, 0x12, 0x34] := by
  obtain ⟨v', t, hrun, hserver, hreply⟩ := executes_as_server registerVars registerWritten rfl
    ⟨by decide, by decide⟩ (by decide)
  refine ⟨v', t, hrun, ?_, hreply (by decide) rfl⟩
  rw [hserver]
  decide

end Rs485.Modbus
