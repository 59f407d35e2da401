import Rs485.Framework.Words
import Rs485.Proof.Modbus.Requests

/-!
# Reading registers

The loop puts the registers into the reply, high byte first (`readRegsLoop_data`),
so that a read request that is accepted is answered with them
(`readReply_regs`). `eMBFuncReadHoldingRegister` drops the high byte of the count:
which requests it accepts as it should is `regReads_iff`.
-/

namespace Rs485.Modbus

open Rs485.Framework Rs485.Spec

/-! ## The loop -/

section ReadRegsLoop

variable (o : RegObj) (n : Nat)

theorem readRegsLoop_reg (p : Ptr Obj) (ix : Nat) (s : Store) :
    (call (readRegsLoop o n p ix) s).2.reg.data = s.reg.data := by
  induction n generalizing p ix s with
  | zero => rfl
  | succ n ih =>
    simp only [readRegsLoop, call_bind, ih]
    rfl

/-- The bytes of the registers overwrite `2 * n` bytes from `p` on. -/
theorem readRegsLoop_data (p : Ptr Obj) (ix : Nat) (s : Store) :
    (call (readRegsLoop o n p ix) s).2.mem.data =
      Function.update s.mem.data p.obj
        (patch (s.mem.data p.obj) p.off (2 * n) (wordByte fun i => s.reg.data o (ix + i))) := by
  induction n generalizing p ix s with
  | zero => rw [Nat.mul_zero, patch_zero, Function.update_eq_self]; rfl
  | succ n ih =>
    have hround (v w : UCHAR) : ((s.mem.store p v).store (p.add 1) w).data =
        Function.update s.mem.data p.obj
          (Function.update (Function.update (s.mem.data p.obj) p.off v) (p.off + 1) w) := by
      have hsnd := Mem.store_data_self (s.mem.store p v) (p.add 1) w
      rw [Ptr.add_obj, Mem.store_data_self] at hsnd
      funext o'
      by_cases ho : o' = p.obj
      · rw [ho, hsnd, Function.update_self, Ptr.add_off]
      · rw [Function.update_of_ne ho]
        exact (Mem.store_data_obj (s.mem.store p v) (p := p.add 1) w ho).trans (Mem.store_data_obj _ _ ho)
    have hlow (v : USHORT) : (v &&& 0xFF).setWidth 8 = v.setWidth 8 := by
      rw [BitVec.setWidth_and]
      exact BitVec.and_allOnes
    simp only [readRegsLoop, call_bind, call_rdReg, call_wr, ih, Mem.touch_data, hround, hlow]
    rw [Ptr.add_obj, Ptr.add_off, Function.update_idem, Function.update_self]
    congr 1
    rw [show 2 * (n + 1) = 2 * n + 1 + 1 by omega, patch_succ, patch_succ]
    refine congrArg₂ (fun f g => patch f _ _ g) rfl ?_
    funext k
    rw [wordByte, wordByte, show (k + 1 + 1) % 2 = k % 2 by omega, show (k + 1 + 1) / 2 = k / 2 + 1 by omega,
      show ix + 1 + k / 2 = ix + (k / 2 + 1) by omega]

theorem readRegsLoop_slice (p : Ptr Obj) (ix : Nat) (s : Store) :
    (call (readRegsLoop o n p ix) s).2.mem.slice p (2 * n) = words (fun i => s.reg.data o (ix + i)) n := by
  rw [Mem.slice, readRegsLoop_data, Function.update_self, ← map_wordByte]
  exact List.map_congr_left fun i hi => patch_inside _ _ _ (List.mem_range.mp hi)

/-- What is before `p` stays. -/
theorem readRegsLoop_before (p q : Ptr Obj) (ix : Nat) (s : Store) (h : q.off < p.off) :
    (call (readRegsLoop o n p ix) s).2.mem.data q.obj q.off = s.mem.data q.obj q.off := by
  rw [readRegsLoop_data, Function.update_apply]
  split
  · rename_i ho
    rw [ho, patch_outside _ _ _ (Or.inl h)]
  · rfl

end ReadRegsLoop

/-! ## The callbacks -/

/-- `cb` reads the `n` registers of `o` from the 0-based `a` on, of a map of `size`. -/
def ReadsRegs (o : RegObj) (a n : USHORT) (size : Nat) (cb : Ptr Obj → StoreM MBErrorCode) : Prop :=
  ∀ p s, call (cb p) s =
    if InMap a n size then (.enoerr, (call (readRegsLoop o n.toNat p a.toNat) s).2) else (.enoreg, s)

theorem inputCB_reads (a n : USHORT) :
    ReadsRegs .usSRegInBuf a n sRegInputNRegs fun p => eMBRegInputCB p (a + 1) n := by
  intro p s
  show call (eMBRegInputCB p (a + 1) n) s = _
  rw [eMBRegInputCB, BitVec.add_sub_cancel, call_ite]
  rfl

theorem holdingCB_reads (a n : USHORT) :
    ReadsRegs .usSRegHoldBuf a n sRegHoldingNRegs fun p => eMBRegHoldingCB p (a + 1) n .regRead := by
  intro p s
  show call (eMBRegHoldingCB p (a + 1) n .regRead) s = _
  rw [eMBRegHoldingCB, BitVec.add_sub_cancel, call_ite]
  rfl

section ReadReply

variable {o : RegObj} {a n : USHORT} {size : Nat} {cb : Ptr Obj → StoreM MBErrorCode}
  (hcb : ReadsRegs o a n size cb) (f : Ptr Obj) (code count : UCHAR) (s : Store)
include hcb

/-- The reply to a read of registers. -/
theorem readReply_regs {len : Nat} (hlen : len = 2 * n.toNat) :
    (call (readReply f code count len cb) s).1 =
        (if InMap a n size then (.exNone, 2 + len) else (.exIllegalDataAddress, 2)) ∧
      (call (readReply f code count len cb) s).2.reg.data = s.reg.data ∧
      (InMap a n size → (call (readReply f code count len cb) s).2.mem.slice f (2 + len) =
        code :: count :: words (fun i => s.reg.data o (a.toNat + i)) n.toNat) := by
  subst hlen
  rw [readReply, call_bind, call_bind, call_bind, hcb]
  by_cases h : InMap a n size
  · rw [if_pos h, if_pos h]
    refine ⟨rfl, readRegsLoop_reg _ _ _ _ _, fun _ => ?_⟩
    have hbefore (i : Nat) (hi : i < 2) := readRegsLoop_before o n.toNat (f.add 2) (f.add i) a.toNat
      (call (wr (f.add 1) count) (call (wr f code) s).2).2 (Nat.add_lt_add_left hi f.off)
    have hslice := readRegsLoop_slice o n.toNat (f.add 2) a.toNat
      (call (wr (f.add 1) count) (call (wr f code) s).2).2
    rw [show 2 + 2 * n.toNat = 2 * n.toNat + 1 + 1 by omega, Mem.slice_cons, Mem.slice_cons, Ptr.add_add]
    refine congrArg₂ List.cons ?_ (congrArg₂ List.cons ?_ hslice)
    · refine (hbefore 0 (by decide)).trans ?_
      simp [Mem.store_data]
    · refine (hbefore 1 (by decide)).trans ?_
      simp [Mem.store_data]
  · rw [if_neg h, if_neg h]
    exact ⟨rfl, rfl, fun hin => absurd hin h⟩

end ReadReply

/-! ## The handlers -/

/-- `r` is what a handler returns and leaves that reads the registers `regs`, and that was
asked for `n` of them from the 0-based `a` on, with `max` as the most it accepts. -/
structure Answers (r : (MBException × Nat) × Store) (f : Ptr Obj) (code : UCHAR) (regs : Nat → USHORT)
    (a n : USHORT) (max : Nat) : Prop where
  val : r.1 =
    if 1 ≤ n.toNat ∧ n.toNat ≤ max then
      if InMap a n 100 then (.exNone, 2 + 2 * n.toNat) else (.exIllegalDataAddress, 2)
    else (.exIllegalDataValue, 5)
  slice : 1 ≤ n.toNat ∧ n.toNat ≤ max → InMap a n 100 → r.2.mem.slice f (2 + 2 * n.toNat) =
    code :: BitVec.ofNat 8 (2 * n.toNat) :: words (fun i => regs (a.toNat + i)) n.toNat

namespace Answers

variable {r : (MBException × Nat) × Store} {f : Ptr Obj} {code : UCHAR} {regs : Nat → USHORT}
  {a n : USHORT} {max : Nat} (h : Answers r f code regs a n max)
include h

theorem exNone_iff : r.1.1 = .exNone ↔ 1 ≤ n.toNat ∧ n.toNat ≤ max ∧ a.toNat + n.toNat ≤ 100 := by
  rw [h.val]
  by_cases hn : 1 ≤ n.toNat ∧ n.toNat ≤ max
  · rw [if_pos hn]
    by_cases hin : InMap a n 100
    · rw [if_pos hin]
      exact iff_of_true rfl ⟨hn.1, hn.2, hin⟩
    · rw [if_neg hin]
      exact iff_of_false nofun fun hc => hin hc.2.2
  · rw [if_neg hn]
    exact iff_of_false nofun fun hc => hn ⟨hc.1, hc.2.1⟩

end Answers

/-- A handler that replies if the count is in bounds. -/
theorem Answers.of_readReply {r : (MBException × Nat) × Store} {o : RegObj} {f : Ptr Obj} {code : UCHAR}
    {a n : USHORT} {max : Nat} {cb : Ptr Obj → StoreM MBErrorCode} {s t : Store} {c : Prop} [Decidable c]
    (hcb : ReadsRegs o a n 100 cb) (hc : c ↔ 1 ≤ n.toNat ∧ n.toNat ≤ max) (ht : t.reg.data = s.reg.data)
    (hr : r = if c then call (readReply f code (BitVec.ofNat 8 (n.toNat * 2)) (n.toNat * 2) cb) t
      else ((.exIllegalDataValue, 5), t)) : Answers r f code (s.reg.data o) a n max := by
  obtain ⟨hval, -, hslice⟩ := readReply_regs hcb f code (BitVec.ofNat 8 (n.toNat * 2)) t (Nat.mul_comm _ 2)
  rw [Nat.mul_comm _ 2] at hr hval hslice
  subst hr
  refine ⟨?_, fun hn hin => ?_⟩
  · rw [apply_ite Prod.fst, hval]
    exact if_congr hc rfl rfl
  · rw [if_pos (hc.mpr hn), hslice hin, ht]

section

variable (f : Ptr Obj) (s : Store)

theorem readInputRegister_answers : Answers (call (eMBFuncReadInputRegister f 5) s) f 4 s.maps.input
    (s.word f 1) (s.word f 3) 124 := by
  refine .of_readReply (inputCB_reads _ _) (c := 1 ≤ (s.word f 3).toNat ∧ (s.word f 3).toNat < 0x007D)
    (t := (call (rdWord (f.add 3)) (call (rdWord (f.add 1)) s).2).2) (by omega) rfl ?_
  rw [eMBFuncReadInputRegister, call_ite, if_pos rfl, call_bind, call_bind, call_ite]
  rfl

/-- It takes the low byte of the count for the count. -/
theorem readHoldingRegister_answers : Answers (call (eMBFuncReadHoldingRegister f 5) s) f 3 s.maps.holding
    (s.word f 1) ((s.byte f 4).setWidth 16) 125 := by
  refine .of_readReply (holdingCB_reads _ _) Iff.rfl
    (t := (call (rd (f.add 4)) (call (rd (f.add 3)) (call (rdWord (f.add 1)) s).2).2).2) rfl ?_
  rw [eMBFuncReadHoldingRegister, call_ite, if_pos rfl, call_bind, call_bind, call_bind, call_ite]
  rfl

end

/-! ## Which requests are accepted -/

/-- The handler `h` accepts the request of five bytes at `f` exactly if its count is between
1 and 125 and its range in the map, and then answers with the registers. -/
def ExactRegRead (h : MBFunctionHandler) (code : UCHAR) (regs : Nat → USHORT) (f : Ptr Obj) (s : Store) : Prop :=
  let a := (s.word f 1).toNat
  let c := (s.word f 3).toNat
  let r := call (h f 5) s
  (r.1.1 = .exNone ↔ 1 ≤ c ∧ c ≤ 125 ∧ a + c ≤ 100) ∧
    (r.1.1 = .exNone → r.1.2 = 2 + 2 * c ∧
      r.2.mem.slice f (2 + 2 * c) = code :: BitVec.ofNat 8 (2 * c) :: words (fun i => regs (a + i)) c)

/-- A handler that reads the count whole is exact: a range in the map has 100 registers at most. -/
theorem Answers.exact {h : MBFunctionHandler} {code : UCHAR} {regs : Nat → USHORT} {f : Ptr Obj} {s : Store}
    {n : USHORT} {max : Nat} (hr : Answers (call (h f 5) s) f code regs (s.word f 1) n max)
    (hn : n = s.word f 3) (hmax : 100 ≤ max ∧ max ≤ 125) : ExactRegRead h code regs f s := by
  subst hn
  have hiff := hr.exNone_iff
  refine ⟨hiff.trans (by omega), fun he => ?_⟩
  obtain ⟨h1, hm, hin⟩ := hiff.mp he
  have hin : InMap (s.word f 1) (s.word f 3) 100 := hin
  have hval := hr.val
  rw [if_pos ⟨h1, hm⟩, if_pos hin] at hval
  exact ⟨congrArg Prod.snd hval, hr.slice ⟨h1, hm⟩ hin⟩

/-- The read requests are accepted exactly when valid if and only if the high byte of the count
is zero, or the rest of it is refused as well. -/
theorem regReads_iff (f : Ptr Obj) (s : Store) :
    (ExactRegRead eMBFuncReadHoldingRegister 3 s.maps.holding f s ∧
      ExactRegRead eMBFuncReadInputRegister 4 s.maps.input f s) ↔
    (s.byte f 3 = 0 ∨ ¬ (1 ≤ (s.byte f 4).toNat ∧ (s.byte f 4).toNat ≤ 125 ∧
      (s.word f 1).toNat + (s.byte f 4).toNat ≤ 100)) := by
  have hinput := (readInputRegister_answers f s).exact rfl (by decide)
  have hr := readHoldingRegister_answers f s
  have hword := s.word_toNat f 3
  have hlow : ((s.byte f 4).setWidth 16 : USHORT).toNat = (s.byte f 4).toNat := by
    rw [BitVec.toNat_setWidth]
    omega
  rw [and_iff_left hinput]
  by_cases hz : s.byte f 3 = 0
  · refine iff_of_true (hr.exact (BitVec.eq_of_toNat_eq ?_) (by decide)) (Or.inl hz)
    rw [hlow, hword, hz]
    simp
  · have hhigh : (s.byte f 3).toNat ≠ 0 := fun e => hz (BitVec.eq_of_toNat_eq e)
    have hiff := hr.exNone_iff
    rw [hlow] at hiff
    rw [or_iff_right hz, ← hiff]
    constructor
    · rintro ⟨h, -⟩ he
      have := h.mp he
      omega
    · intro hne
      refine ⟨iff_of_false hne ?_, fun he => absurd he hne⟩
      omega

/-- A request for 257 registers is answered with one. -/
theorem not_regReads : ¬ ∀ (f : Ptr Obj) (s : Store),
    ExactRegRead eMBFuncReadHoldingRegister 3 s.maps.holding f s ∧
      ExactRegRead eMBFuncReadInputRegister 4 s.maps.input f s :=
  fun h => absurd ((h ⟨.ucRTUBuf 0, 1⟩ (.ofFrame [1, 3, 0, 0, 1, 1])).1.1.mp (by decide)) (by decide)

end Rs485.Modbus
