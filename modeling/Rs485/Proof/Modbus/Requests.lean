import Mathlib.Tactic.Tauto
import Rs485.Proof.Modbus.Bounds
import Rs485.Proof.Modbus.Writes

/-!
# When a request is executed, and when it has failed

The handlers that write several items compare the count with the byte count but
not with the length received, so that a request cut short, or with bytes to
spare, is executed (`writes_complete_iff`). And a request that fails has
changed nothing, but for the read-write request, which writes before it checks
what it is to read (`failed_unchanged_iff`).
-/

namespace Rs485.Modbus

open Rs485.Framework Rs485.Spec

/-! ## Complete requests -/

/-- The handler `h`, whose header of `o` bytes ends with the byte count, executes only
complete requests: of any other length it returns `MB_EX_ILLEGAL_DATA_VALUE` and leaves
the maps; and what it makes of the maps depends on the received bytes alone. -/
def CompleteOnly (h : MBFunctionHandler) (o : Nat) (f : Ptr Obj) (L : Nat) (s : Store) : Prop :=
  (L ≠ o + (s.byte f (o - 1)).toNat → result (call (h f L) s) = (.exIllegalDataValue, s.maps)) ∧
    ∀ t : Store, t.maps = s.maps → (∀ i < L, t.byte f i = s.byte f i) →
      (call (h f L) t).2.maps = (call (h f L) s).2.maps

/-- A handler that writes: a frame shorter than the header gives `short`, a header
with parameters that do not agree `MB_EX_ILLEGAL_DATA_VALUE`, and any other frame
is executed, with a result that its header and its byte count say the bytes of. -/
structure WriteHandler (h : MBFunctionHandler) (o : Nat) (f : Ptr Obj) (short : MBException)
    (Valid : Store → Prop) (run : Store → MBException × Maps) : Prop where
  short_result : ∀ L s, L < o → result (call (h f L) s) = (short, s.maps)
  invalid_result : ∀ L s, o ≤ L → ¬ Valid s →
    result (call (h f L) s) = (.exIllegalDataValue, s.maps)
  valid_result : ∀ L s, o ≤ L → Valid s → result (call (h f L) s) = run s
  run_ne : ∀ s, (run s).1 ≠ .exIllegalDataValue
  valid_congr : ∀ s t : Store, (∀ i < o, t.byte f i = s.byte f i) → Valid s → Valid t
  run_congr : ∀ s t : Store, Valid s → t.maps = s.maps →
    (∀ i < o + (s.byte f (o - 1)).toNat, t.byte f i = s.byte f i) → run t = run s

namespace WriteHandler

variable {h : MBFunctionHandler} {o : Nat} {f : Ptr Obj} {short : MBException}
  {Valid : Store → Prop} {run : Store → MBException × Maps}
  (H : WriteHandler h o f short Valid run) {L : Nat} {s : Store}
include H

theorem valid_iff {t : Store} (hb : ∀ i < o, t.byte f i = s.byte f i) : Valid t ↔ Valid s :=
  ⟨H.valid_congr t s fun i hi => (hb i hi).symm, H.valid_congr s t hb⟩

/-- A handler executes only complete requests just when the request is complete,
or is refused with the right exception. -/
theorem completeOnly_iff : CompleteOnly h o f L s ↔
    L = o + (s.byte f (o - 1)).toNat ∨ (L < o ∧ short = .exIllegalDataValue) ∨
      (o ≤ L ∧ ¬ Valid s) := by
  constructor
  · rintro ⟨hne, -⟩
    by_cases hL : L = o + (s.byte f (o - 1)).toNat
    · exact Or.inl hL
    · have hres := hne hL
      rcases Nat.lt_or_ge L o with hlt | hge
      · rw [H.short_result _ _ hlt] at hres
        exact Or.inr (Or.inl ⟨hlt, congrArg Prod.fst hres⟩)
      · refine Or.inr (Or.inr ⟨hge, fun hv => ?_⟩)
        rw [H.valid_result _ _ hge hv] at hres
        exact H.run_ne s (congrArg Prod.fst hres)
  · rintro (hL | ⟨hlt, rfl⟩ | ⟨hge, hv⟩)
    · refine ⟨fun hne => absurd hL hne, fun t hm hb => ?_⟩
      have hge : o ≤ L := by omega
      have hiff := H.valid_iff fun i hi => hb i (by omega)
      by_cases hv : Valid s
      · have ht := H.valid_result _ _ hge (hiff.mpr hv)
        rw [H.run_congr s t hv hm fun i hi => hb i (by omega), ← H.valid_result _ _ hge hv] at ht
        exact congrArg Prod.snd ht
      · have ht := congrArg Prod.snd (H.invalid_result _ _ hge (hiff.not.mpr hv))
        exact ht.trans (hm.trans (congrArg Prod.snd (H.invalid_result _ _ hge hv)).symm)
    · refine ⟨fun _ => H.short_result _ _ hlt, fun t hm hb => ?_⟩
      have ht := congrArg Prod.snd (H.short_result _ t hlt)
      exact ht.trans (hm.trans (congrArg Prod.snd (H.short_result _ _ hlt)).symm)
    · refine ⟨fun _ => H.invalid_result _ _ hge hv, fun t hm hb => ?_⟩
      have hiff := H.valid_iff fun i hi => hb i (by omega)
      have ht := congrArg Prod.snd (H.invalid_result _ _ hge (hiff.not.mpr hv))
      exact ht.trans (hm.trans (congrArg Prod.snd (H.invalid_result _ _ hge hv)).symm)

end WriteHandler

section

variable {f : Ptr Obj}

theorem coilsResult_ne (m : Maps) (a n : USHORT) (g : Nat → Bool) :
    (coilsResult m a n g).1 ≠ .exIllegalDataValue := by
  rw [coilsResult]
  split <;> simp

theorem holdingResult_ne (m : Maps) (a n : USHORT) (g : Nat → USHORT) :
    (holdingResult m a n g).1 ≠ .exIllegalDataValue := by
  rw [holdingResult]
  split <;> simp

/-- The words behind a header that the byte count covers. -/
theorem words_congr {s t : Store} {o n bc : Nat} (hb : ∀ i < o + bc, t.byte f i = s.byte f i)
    (hn : 2 * n ≤ bc) {i : Nat} (hi : i < n) :
    t.word (f.add o) (2 * i) = s.word (f.add o) (2 * i) := by
  rw [Store.word_add, Store.word_add]
  exact Store.word_congr (hb _ (by omega)) (hb _ (by omega))

/-- A valid count of coils takes the bytes that the byte count says. -/
theorem ValidCoils.bytes {s : Store} (hv : ValidCoils f s) :
    ((s.word f 3).toNat + 7) / 8 = (s.byte f 5).toNat := by
  obtain ⟨h₁, h₂, h₃⟩ := hv
  rw [← h₃, nBytes]
  have hand : (s.word f 3 &&& 0x0007).toNat = (s.word f 3).toNat % 8 := by
    rw [BitVec.toNat_and]
    exact Nat.and_two_pow_sub_one_eq_mod _ 3
  split
  · rename_i h
    have : (s.word f 3 &&& 0x0007).toNat ≠ 0 := fun e => h (BitVec.eq_of_toNat_eq e)
    rw [BitVec.toNat_ofNat]
    omega
  · rename_i h
    have : (s.word f 3 &&& 0x0007).toNat = 0 := congrArg BitVec.toNat (not_not.mp h)
    rw [BitVec.toNat_ofNat]
    omega

theorem writeMultipleCoils_handler (hf : ¬ f.obj.IsMap) :
    WriteHandler eMBFuncWriteMultipleCoils 6 f .exIllegalDataValue (ValidCoils f)
      fun s => coilsResult s.maps (s.word f 1) (s.word f 3) (bitAt (s.byte (f.add 6))) where
  short_result L s hL := by
    rw [writeMultipleCoils_result _ _ _ hf, if_neg (by omega)]
  invalid_result L s hL hv := by
    rw [writeMultipleCoils_result _ _ _ hf, if_pos (by omega), if_neg hv]
  valid_result L s hL hv := by
    rw [writeMultipleCoils_result _ _ _ hf, if_pos (by omega), if_pos hv]
  run_ne s := coilsResult_ne _ _ _ _
  valid_congr s t hb hv := by
    have hw := Store.word_congr (hb 3 (by decide)) (hb 4 (by decide))
    rw [ValidCoils, hw, hb 5 (by decide)]
    exact hv
  run_congr s t hv hm hb := by
    have hbytes := hv.bytes
    change ∀ i < 6 + (s.byte f 5).toNat, _ at hb
    rw [hm, Store.word_congr (hb 1 (by omega)) (hb 2 (by omega)),
      Store.word_congr (hb 3 (by omega)) (hb 4 (by omega))]
    refine coilsResult_congr fun i hi => ?_
    rw [bitAt, bitAt, Store.byte_add, Store.byte_add, hb _ (by omega)]

theorem writeMultipleHoldingRegister_handler :
    WriteHandler eMBFuncWriteMultipleHoldingRegister 6 f .exIllegalDataValue (ValidHolding f)
      fun s => holdingResult s.maps (s.word f 1) (s.word f 3)
        fun i => s.word (f.add 6) (2 * i) where
  short_result L s hL := by
    rw [writeMultipleHoldingRegister_result, if_neg (by omega)]
  invalid_result L s hL hv := by
    rw [writeMultipleHoldingRegister_result, if_pos (by omega), if_neg hv]
  valid_result L s hL hv := by
    rw [writeMultipleHoldingRegister_result, if_pos (by omega), if_pos hv]
  run_ne s := holdingResult_ne _ _ _ _
  valid_congr s t hb hv := by
    have hw := Store.word_congr (hb 3 (by decide)) (hb 4 (by decide))
    rw [ValidHolding, hw, hb 5 (by decide)]
    exact hv
  run_congr s t hv hm hb := by
    obtain ⟨h₁, h₂, h₃⟩ := hv
    have hbc : 2 * (s.word f 3).toNat ≤ (s.byte f (6 - 1)).toNat := by
      rw [h₃, BitVec.toNat_ofNat]
      omega
    rw [hm, Store.word_congr (hb 1 (by omega)) (hb 2 (by omega)),
      Store.word_congr (hb 3 (by omega)) (hb 4 (by omega))]
    exact holdingResult_congr fun i hi => words_congr hb hbc hi

/-- What a valid read-write request does. -/
def readWriteRun (f : Ptr Obj) (s : Store) : MBException × Maps :=
  if InMap (s.word f 5) (s.word f 7) sRegHoldingNRegs then
    (rangeException (InMap (s.word f 1) (s.word f 3) sRegHoldingNRegs),
      s.maps.writeHolding (s.word f 5).toNat (s.word f 7).toNat
        fun i => s.word (f.add 10) (2 * i))
  else (.exIllegalDataAddress, s.maps)

theorem readWriteMultipleHoldingRegister_handler (hf : ¬ f.obj.IsMap) :
    WriteHandler eMBFuncReadWriteMultipleHoldingRegister 10 f .exNone (ValidReadWrite f)
      (readWriteRun f) where
  short_result L s hL := by
    rw [readWriteMultipleHoldingRegister_result _ _ _ hf, if_neg (by omega)]
  invalid_result L s hL hv := by
    rw [readWriteMultipleHoldingRegister_result _ _ _ hf, if_pos (by omega), if_neg hv]
  valid_result L s hL hv := by
    rw [readWriteMultipleHoldingRegister_result _ _ _ hf, if_pos (by omega), if_pos hv]
    rfl
  run_ne s := by
    rw [readWriteRun]
    split
    · rw [rangeException]
      split <;> simp
    · simp
  valid_congr s t hb hv := by
    rw [ValidReadWrite, Store.word_congr (hb 3 (by decide)) (hb 4 (by decide)),
      Store.word_congr (hb 7 (by decide)) (hb 8 (by decide)), hb 9 (by decide)]
    exact hv
  run_congr s t hv hm hb := by
    obtain ⟨-, -, -, -, hbc⟩ := hv
    rw [readWriteRun, readWriteRun, hm, Store.word_congr (hb 1 (by omega)) (hb 2 (by omega)),
      Store.word_congr (hb 3 (by omega)) (hb 4 (by omega)),
      Store.word_congr (hb 5 (by omega)) (hb 6 (by omega)),
      Store.word_congr (hb 7 (by omega)) (hb 8 (by omega)), Maps.writeHolding, Maps.writeHolding,
      patch_congr fun i hi => words_congr hb (Nat.le_of_eq hbc) hi]

end

/-- The write requests are executed only when complete exactly if the length is the
one that the byte count says, or the frame is refused for something else (which
the read-write request never does for being short). -/
theorem writes_complete_iff (f : Ptr Obj) (L : Nat) (s : Store) (hf : ¬ f.obj.IsMap) :
    (CompleteOnly eMBFuncWriteMultipleCoils 6 f L s ↔
      L = 6 + (s.byte f 5).toNat ∨ L < 6 ∨ ¬ ValidCoils f s) ∧
    (CompleteOnly eMBFuncWriteMultipleHoldingRegister 6 f L s ↔
      L = 6 + (s.byte f 5).toNat ∨ L < 6 ∨ ¬ ValidHolding f s) ∧
    (CompleteOnly eMBFuncReadWriteMultipleHoldingRegister 10 f L s ↔
      L = 10 + (s.byte f 9).toNat ∨ (10 ≤ L ∧ ¬ ValidReadWrite f s)) := by
  refine ⟨?_, ?_, ?_⟩
  · rw [(writeMultipleCoils_handler hf).completeOnly_iff, ← Nat.not_lt]
    tauto
  · rw [writeMultipleHoldingRegister_handler.completeOnly_iff, ← Nat.not_lt]
    tauto
  · rw [(readWriteMultipleHoldingRegister_handler hf).completeOnly_iff]
    simp

/-- A request of six bytes to write register 0: the two bytes behind it, which are no
part of it, are written. -/
theorem writes_complete_iff_cut_short :
    (CompleteOnly eMBFuncWriteMultipleCoils 6 ⟨.ucRTUBuf 0, 1⟩ 6
        (.ofFrame [1, 16, 0, 0, 0, 1, 2, 0x12, 0x34]) ↔
      6 = 6 + 2 ∨ 6 < 6 ∨ ¬ ValidCoils ⟨.ucRTUBuf 0, 1⟩
        (.ofFrame [1, 16, 0, 0, 0, 1, 2, 0x12, 0x34])) ∧
    (CompleteOnly eMBFuncWriteMultipleHoldingRegister 6 ⟨.ucRTUBuf 0, 1⟩ 6
        (.ofFrame [1, 16, 0, 0, 0, 1, 2, 0x12, 0x34]) ↔
      6 = 6 + 2 ∨ 6 < 6 ∨ ¬ ValidHolding ⟨.ucRTUBuf 0, 1⟩
        (.ofFrame [1, 16, 0, 0, 0, 1, 2, 0x12, 0x34])) ∧
    (CompleteOnly eMBFuncReadWriteMultipleHoldingRegister 10 ⟨.ucRTUBuf 0, 1⟩ 6
        (.ofFrame [1, 16, 0, 0, 0, 1, 2, 0x12, 0x34]) ↔
      6 = 10 + 0 ∨ (10 ≤ 6 ∧ ¬ ValidReadWrite ⟨.ucRTUBuf 0, 1⟩
        (.ofFrame [1, 16, 0, 0, 0, 1, 2, 0x12, 0x34]))) :=
  writes_complete_iff ⟨.ucRTUBuf 0, 1⟩ 6 (.ofFrame [1, 16, 0, 0, 0, 1, 2, 0x12, 0x34]) nofun

theorem not_writes_complete : ¬ CompleteOnly eMBFuncWriteMultipleHoldingRegister 6
    ⟨.ucRTUBuf 0, 1⟩ 6 (.ofFrame [1, 16, 0, 0, 0, 1, 2, 0x12, 0x34]) :=
  fun h => absurd (congrArg Prod.fst (h.1 (by decide))) (by decide)

/-! ## Failed requests -/

/-- A handler that returns an exception has left the maps. -/
def Atomic (h : MBFunctionHandler) (f : Ptr Obj) (L : Nat) (s : Store) : Prop :=
  (call (h f L) s).1.1 ≠ .exNone → (call (h f L) s).2.maps = s.maps

theorem atomic_of_result {h : MBFunctionHandler} {f : Ptr Obj} {L : Nat} {s : Store}
    {r : MBException × Maps} (hr : result (call (h f L) s) = r) (ha : r.1 ≠ .exNone → r.2 = s.maps) :
    Atomic h f L s := by
  rw [← hr] at ha
  exact ha

section Atomic

variable {f : Ptr Obj} (hf : ¬ f.obj.IsMap) (L : Nat) (s : Store)

theorem coilsResult_atomic {m : Maps} {a n : USHORT} {g : Nat → Bool} :
    (coilsResult m a n g).1 ≠ .exNone → (coilsResult m a n g).2 = m := by
  rw [coilsResult]
  split
  · exact fun h => absurd rfl h
  · exact fun _ => rfl

theorem holdingResult_atomic {m : Maps} {a n : USHORT} {g : Nat → USHORT} :
    (holdingResult m a n g).1 ≠ .exNone → (holdingResult m a n g).2 = m := by
  rw [holdingResult]
  split
  · exact fun h => absurd rfl h
  · exact fun _ => rfl

theorem writeCoil_atomic : Atomic eMBFuncWriteCoil f L s := by
  refine atomic_of_result (writeCoil_result f L s) ?_
  split
  · split
    · exact coilsResult_atomic
    · exact fun _ => rfl
  · exact fun _ => rfl

include hf in
theorem writeMultipleCoils_atomic : Atomic eMBFuncWriteMultipleCoils f L s := by
  refine atomic_of_result (writeMultipleCoils_result f L s hf) ?_
  split
  · split
    · exact coilsResult_atomic
    · exact fun _ => rfl
  · exact fun _ => rfl

theorem writeHoldingRegister_atomic : Atomic eMBFuncWriteHoldingRegister f L s := by
  refine atomic_of_result (writeHoldingRegister_result f L s) ?_
  split
  · exact holdingResult_atomic
  · exact fun _ => rfl

theorem writeMultipleHoldingRegister_atomic :
    Atomic eMBFuncWriteMultipleHoldingRegister f L s := by
  refine atomic_of_result (writeMultipleHoldingRegister_result f L s) ?_
  split
  · split
    · exact holdingResult_atomic
    · exact fun _ => rfl
  · exact fun _ => rfl

/-- A read-write request whose header is valid, whose write is in the map and changes a
register, and whose read is not in the map. -/
def PartialWrite (f : Ptr Obj) (L : Nat) (s : Store) : Prop :=
  10 ≤ L ∧ ValidReadWrite f s ∧ InMap (s.word f 5) (s.word f 7) sRegHoldingNRegs ∧
    ¬ InMap (s.word f 1) (s.word f 3) sRegHoldingNRegs ∧
    ∃ i < (s.word f 7).toNat,
      s.word (f.add 10) (2 * i) ≠ s.maps.holding ((s.word f 5).toNat + i)

include hf in
theorem readWriteMultipleHoldingRegister_atomic_iff :
    Atomic eMBFuncReadWriteMultipleHoldingRegister f L s ↔ ¬ PartialWrite f L s := by
  have hres := readWriteMultipleHoldingRegister_result f L s hf
  have hself := s.maps.writeHolding_eq_self (a := (s.word f 5).toNat) (n := (s.word f 7).toNat)
    (g := fun i => s.word (f.add 10) (2 * i))
  constructor
  · rintro ha ⟨hL, hv, hw, hr, i, hi, hne⟩
    rw [if_pos hL, if_pos hv, if_pos hw, rangeException, if_neg hr] at hres
    have hex : (call (eMBFuncReadWriteMultipleHoldingRegister f L) s).1.1 =
      .exIllegalDataAddress := congrArg Prod.fst hres
    have hmaps := ha (by rw [hex]; decide)
    exact hne (hself.mp ((congrArg Prod.snd hres).symm.trans hmaps) i hi)
  · intro hp
    refine atomic_of_result hres ?_
    by_cases hL : L ≥ 10
    · rw [if_pos hL]
      by_cases hv : ValidReadWrite f s
      · rw [if_pos hv]
        by_cases hw : InMap (s.word f 5) (s.word f 7) sRegHoldingNRegs
        · rw [if_pos hw, rangeException]
          intro hne
          refine hself.mpr fun i hi => ?_
          by_contra hdiff
          by_cases hr : InMap (s.word f 1) (s.word f 3) sRegHoldingNRegs
          · exact hne (if_pos hr)
          · exact hp ⟨hL, hv, hw, hr, i, hi, hdiff⟩
        · rw [if_neg hw]
          exact fun _ => rfl
      · rw [if_neg hv]
        exact fun _ => rfl
    · rw [if_neg hL]
      exact fun _ => rfl

/-- The handlers that only read do not write the maps at all. -/
theorem atomic_of_read {h : MBFunctionHandler}
    (hh : ∀ c, HandlerOk (fun s => s.maps = c) f h) : Atomic h f L s :=
  fun _ => (hh s.maps L s rfl).2

include hf in
/-- The registered handlers, but for the read-write request. -/
theorem xFuncHandlers_atomic {c : UCHAR} {h : MBFunctionHandler} (hc : c ≠ 23)
    (hm : (c, h) ∈ xFuncHandlers) : Atomic h f L s := by
  have hF (m : Maps) := frameAccess_maps m hf
  simp only [xFuncHandlers, List.mem_cons, Prod.mk.injEq, List.not_mem_nil, or_false] at hm
  rcases hm with ⟨-, rfl⟩ | ⟨-, rfl⟩ | ⟨-, rfl⟩ | ⟨-, rfl⟩ | ⟨-, rfl⟩ | ⟨rfl, -⟩ | ⟨-, rfl⟩ |
    ⟨-, rfl⟩ | ⟨-, rfl⟩ | ⟨-, rfl⟩
  · exact atomic_of_read L s fun m => (hF m).reportSlaveID
  · exact atomic_of_read L s fun m => (hF m).readInputRegister
  · exact atomic_of_read L s fun m => (hF m).readHoldingRegister
  · exact writeMultipleHoldingRegister_atomic L s
  · exact writeHoldingRegister_atomic L s
  · exact absurd rfl hc
  · exact atomic_of_read L s fun m => (hF m).readCoils
  · exact writeCoil_atomic L s
  · exact writeMultipleCoils_atomic hf L s
  · exact atomic_of_read L s fun m => (hF m).readDiscreteInputs

end Atomic

section PollExecute

variable {v : PollVars} {s : Store}

/-- The store after `eMBPoll` has read the function code. -/
def afterFunctionCode (v : PollVars) (s : Store) : Store :=
  { s with mem := s.mem.touch v.ucMBFrame }

theorem pollExecute_some {h : MBFunctionHandler}
    (hfind : findHandler (s.byte v.ucMBFrame 0) xFuncHandlers = some h) :
    (call (pollExecute v) s).1.eException =
        (call (h v.ucMBFrame v.usLength) (afterFunctionCode v s)).1.1 ∧
      (call (pollExecute v) s).2 =
        (call (h v.ucMBFrame v.usLength) (afterFunctionCode v s)).2 := by
  have hfind' : findHandler (call (rd v.ucMBFrame) s).1 xFuncHandlers = some h := hfind
  rw [pollExecute, call_bind, hfind']
  exact ⟨rfl, rfl⟩

theorem pollExecute_none (hfind : findHandler (s.byte v.ucMBFrame 0) xFuncHandlers = none) :
    (call (pollExecute v) s).2.maps = s.maps := by
  have hfind' : findHandler (call (rd v.ucMBFrame) s).1 xFuncHandlers = none := hfind
  rw [pollExecute, call_bind, hfind']
  rfl

end PollExecute

/-- A request that fails leaves the maps as they were, exactly if it is not a read-write
request that writes a register and then finds that it may not read. -/
theorem failed_unchanged_iff (v : PollVars) (s : Store) (hf : ¬ v.ucMBFrame.obj.IsMap) :
    ((call (pollExecute v) s).1.eException ≠ .exNone →
      (call (pollExecute v) s).2.maps = s.maps) ↔
    ¬ (s.byte v.ucMBFrame 0 = 23 ∧ PartialWrite v.ucMBFrame v.usLength s) := by
  by_cases hc : s.byte v.ucMBFrame 0 = 23
  · have hfind : findHandler (s.byte v.ucMBFrame 0) xFuncHandlers =
        some eMBFuncReadWriteMultipleHoldingRegister := by rw [hc]; rfl
    obtain ⟨he, hs⟩ := pollExecute_some hfind
    rw [he, hs]
    refine (readWriteMultipleHoldingRegister_atomic_iff hf v.usLength
      (afterFunctionCode v s)).trans (not_congr ?_)
    exact ⟨fun h => ⟨hc, h⟩, And.right⟩
  · refine iff_of_true ?_ fun h => hc h.1
    cases hfind : findHandler (s.byte v.ucMBFrame 0) xFuncHandlers with
    | none => exact fun _ => pollExecute_none hfind
    | some h =>
      obtain ⟨he, hs⟩ := pollExecute_some hfind
      rw [he, hs]
      exact xFuncHandlers_atomic hf v.usLength (afterFunctionCode v s) hc (findHandler_mem hfind)

/-- A request to write register 0 and to read register 100, which there is not. -/
def writeThenFail : Store :=
  .ofFrame [1, 23, 0, 100, 0, 1, 0, 0, 0, 1, 2, 0x12, 0x34]

/-- The static variables for that request. -/
def writeThenFailVars : PollVars :=
  { PollVars.reset with ucMBFrame := ⟨.ucRTUBuf 0, 1⟩, ucRcvAddress := 1, usLength := 12 }

theorem failed_unchanged_iff_writeThenFail :
    ((call (pollExecute writeThenFailVars) writeThenFail).1.eException ≠ .exNone →
      (call (pollExecute writeThenFailVars) writeThenFail).2.maps = writeThenFail.maps) ↔
    ¬ (writeThenFail.byte ⟨.ucRTUBuf 0, 1⟩ 0 = 23 ∧
      PartialWrite ⟨.ucRTUBuf 0, 1⟩ 12 writeThenFail) :=
  failed_unchanged_iff writeThenFailVars writeThenFail nofun

/-- It returns `MB_EX_ILLEGAL_DATA_ADDRESS` and has written register 0. -/
theorem not_failed_unchanged :
    ¬ ((call (pollExecute writeThenFailVars) writeThenFail).1.eException ≠ .exNone →
      (call (pollExecute writeThenFailVars) writeThenFail).2.maps = writeThenFail.maps) :=
  fun h => absurd (congrFun (congrArg Maps.holding (h (by decide))) 0) (by decide)

end Rs485.Modbus
