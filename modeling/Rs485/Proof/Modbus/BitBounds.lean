import Rs485.Proof.Modbus.BitReads

/-!
# The bounds of the bit stores

`xMBUtilGetBits` and `xMBUtilSetBits` access two neighbouring bytes, and a read
makes one call more than the count needs. So a read or a write near the end of a
range leaves the array: exactly when it does is `bitStores_iff`.
-/

namespace Rs485.Modbus

open Rs485.Framework

/-! ## The accesses of the helpers and loops -/

section

variable (o o' : Obj) {off : Nat} (hoff : off < 8) (N : Nat)
include hoff

theorem getBits_within (ix n : Nat) (s : Store) :
    (call (xMBUtilGetBits ⟨o, ix⟩ off n) s).2.mem.Within o' N ↔
      (o = o' → ix + 1 < N) ∧ s.mem.Within o' N := by
  have hdiv : off / 8 = 0 := Nat.div_eq_of_lt hoff
  simp only [xMBUtilGetBits, call_bind, call_rd, call_pure, Mem.within_touch, Ptr.add_obj, Ptr.add_off,
    hdiv, Nat.zero_add, Nat.add_zero]
  constructor
  · rintro ⟨h₁, -, h⟩
    exact ⟨h₁, h⟩
  · rintro ⟨h₁, h⟩
    exact ⟨h₁, fun e => Nat.lt_of_succ_lt (h₁ e), h⟩

theorem setBits_within (ix : Nat) {n : Nat} (v : UCHAR) (hn : n ≤ 8) (s : Store) :
    (call (xMBUtilSetBits ⟨o, ix⟩ off n v hn) s).2.mem.Within o' N ↔
      (o = o' → ix + 1 < N) ∧ s.mem.Within o' N := by
  have hdiv : off / 8 = 0 := Nat.div_eq_of_lt hoff
  simp only [xMBUtilSetBits, call_bind, call_rd, call_wr, Mem.within_touch, Mem.within_store, Ptr.add_obj,
    Ptr.add_off, hdiv, Nat.zero_add, Nat.add_zero]
  constructor
  · rintro ⟨h₁, -, -, -, h⟩
    exact ⟨h₁, h⟩
  · rintro ⟨h₁, h⟩
    have h₀ (e : o = o') : ix < N := Nat.lt_of_succ_lt (h₁ e)
    exact ⟨h₁, h₀, h₁, h₀, h⟩

omit hoff in
/-- The bytes of one round more. -/
theorem round_bound {c : Prop} {n ix : Nat} :
    (c → n + 1 ≠ 0 → ix + (n + 1) < N) ↔ (c → n ≠ 0 → ix + 1 + n < N) ∧ (c → ix + 1 < N) := by
  constructor
  · intro h
    refine ⟨fun hc _ => ?_, fun hc => ?_⟩
    · have := h hc (Nat.succ_ne_zero n)
      omega
    · have := h hc (Nat.succ_ne_zero n)
      omega
  · rintro ⟨hrest, hone⟩ hc -
    by_cases hn : n = 0
    · have := hone hc
      omega
    · have := hrest hc hn
      omega

/-- `n` rounds access the `n + 1` bytes from `ix` on. -/
theorem readBitsLoop_within {p : Ptr Obj} (hp : p.obj ≠ o') (n ix : Nat) (s : Store) :
    (call (readBitsLoop o off n p ix) s).2.mem.Within o' N ↔
      (o = o' → n ≠ 0 → ix + n < N) ∧ s.mem.Within o' N := by
  induction n generalizing p ix s with
  | zero => exact ⟨fun h => ⟨fun _ h0 => absurd rfl h0, h⟩, And.right⟩
  | succ n ih =>
    rw [readBitsLoop, call_bind, call_bind, ih (p := p.add 1) hp, call_wr, Mem.within_store,
      getBits_within _ _ hoff, round_bound, and_assoc]
    exact and_congr_right fun _ => and_iff_right fun e => absurd e hp

theorem writeBitsLoop_within {p : Ptr Obj} (hp : p.obj ≠ o') (n ix : Nat) (s : Store) :
    (call (writeBitsLoop o off n p ix) s).2.mem.Within o' N ↔
      (o = o' → n ≠ 0 → ix + n < N) ∧ s.mem.Within o' N := by
  induction n generalizing p ix s with
  | zero => exact ⟨fun h => ⟨fun _ h0 => absurd rfl h0, h⟩, And.right⟩
  | succ n ih =>
    rw [writeBitsLoop, call_bind, call_bind, ih (p := p.add 1) hp, setBits_within _ _ hoff, call_rd,
      Mem.within_touch, round_bound, and_assoc]
    exact and_congr_right fun _ => and_congr_right fun _ => and_iff_right fun e => absurd e hp

end

section

variable (o o' : Obj) (N : Nat) {p : Ptr Obj} (hp : p.obj ≠ o') (a n : USHORT) (s : Store)
include hp

theorem readBits_within : (call (readBits o p a n) s).2.mem.Within o' N ↔
    (o = o' → a.toNat / 8 + n.toNat / 8 + 1 < N) ∧ s.mem.Within o' N := by
  have hloop := readBitsLoop_within o o' (Nat.mod_lt a.toNat (show 8 > 0 by decide)) N hp
    (n.toNat / 8 + 1) (a.toNat / 8) s
  rw [readBits, call_bind, readBitsLoop_val, Ptr.pred_add_succ]
  simp only [call_bind, call_rd, call_wr, Mem.within_touch, Mem.within_store, Ptr.add_obj, hloop]
  simp only [hp, false_implies, true_and, ne_eq, Nat.succ_ne_zero, not_false_eq_true, true_implies,
    Nat.add_assoc]

theorem writeBits_within : (call (writeBits o p a n) s).2.mem.Within o' N ↔
    (o = o' → n.toNat ≠ 0 → a.toNat / 8 + (n.toNat + 7) / 8 < N) ∧ s.mem.Within o' N := by
  have hoff := Nat.mod_lt a.toNat (show 8 > 0 by decide)
  have hloop := writeBitsLoop_within o o' hoff N hp (n.toNat / 8) (a.toNat / 8) s
  rw [call_writeBits, afterLoop]
  split
  · rename_i hr
    rw [hloop]
    refine and_congr_left fun _ => imp_congr_right fun _ => ?_
    rw [show (n.toNat + 7) / 8 = n.toNat / 8 by omega]
    exact imp_congr_left (by omega)
  · rename_i hr
    rw [setBits_within _ _ hoff, Mem.within_touch, hloop, ← and_assoc, ← and_assoc]
    refine and_congr_left fun _ => ?_
    rw [Ptr.add_obj, and_iff_left fun e => absurd e hp, show (n.toNat + 7) / 8 = n.toNat / 8 + 1 by omega]
    refine ⟨fun h e _ => h.1 e, fun h => ⟨fun e => h e (by omega), fun e _ => ?_⟩⟩
    have := h e (by omega)
    omega

end

/-! ## The callbacks -/

/-- The bytes of `ucSCoilBuf` and of `ucSDiscInBuf`. -/
abbrev ucSCoilBufLen : Nat := sCoilNCoils / 8
abbrev ucSDiscInBufLen : Nat := sDiscreteInputNDiscretes / 8

/-- Called in `s`, `x` accesses the two arrays of bits inside their bounds. -/
def InArrays (x : StoreM MBErrorCode) (s : Store) : Prop :=
  let t := (call x { s with mem.log := [] }).2
  t.mem.Within .ucSCoilBuf ucSCoilBufLen ∧ t.mem.Within .ucSDiscInBuf ucSDiscInBufLen

section

variable (p : Ptr Obj) (usAddress usN : USHORT) (s : Store) (hp : ¬ p.obj.IsMap)
include hp

/-- A read of `n` bits from bit `a` on stays inside the array if and only if the array has
`n / 8 + 2` bytes from byte `a / 8` on, and a write (of a bit at least) if and only if it has
one byte more than the `n` bits fill. -/
theorem bitStores_iff :
    (InMap (usAddress - 1) usN sCoilNCoils →
      (InArrays (eMBRegCoilsCB p usAddress usN .regRead) s ↔
        (usAddress - 1).toNat / 8 + usN.toNat / 8 + 1 < ucSCoilBufLen) ∧
      (InArrays (eMBRegCoilsCB p usAddress usN .regWrite) s ↔
        (usN.toNat ≠ 0 → (usAddress - 1).toNat / 8 + (usN.toNat + 7) / 8 < ucSCoilBufLen))) ∧
    (InMap (usAddress - 1) usN sDiscreteInputNDiscretes →
      (InArrays (eMBRegDiscreteCB p usAddress usN) s ↔
        (usAddress - 1).toNat / 8 + usN.toNat / 8 + 1 < ucSDiscInBufLen)) := by
  have hcoil : p.obj ≠ .ucSCoilBuf := fun e => hp (Or.inl e)
  have hdisc : p.obj ≠ .ucSDiscInBuf := fun e => hp (Or.inr e)
  have hnil (o : Obj) (N : Nat) : Mem.Within { s.mem with log := [] } o N := nofun
  refine ⟨fun h => ⟨?_, ?_⟩, fun h => ?_⟩
  · rw [InArrays, eMBRegCoilsCB, call_ite, if_pos h, call_bind, call_pure, readBits_within _ _ _ hcoil,
      readBits_within _ _ _ hdisc]
    simp only [hnil, reduceCtorEq, true_implies, false_implies, and_true]
  · rw [InArrays, eMBRegCoilsCB, call_ite, if_pos h, call_bind, call_pure, writeBits_within _ _ _ hcoil,
      writeBits_within _ _ _ hdisc]
    simp only [hnil, reduceCtorEq, true_implies, false_implies, and_true]
  · rw [InArrays, eMBRegDiscreteCB, call_ite, if_pos h, call_bind, call_pure, readBits_within _ _ _ hcoil,
      readBits_within _ _ _ hdisc]
    simp only [hnil, reduceCtorEq, true_implies, false_implies, true_and, and_true]

end

/-- The first eight bits are read and written inside the arrays. -/
theorem bitStores_iff_first :
    ((InArrays (eMBRegCoilsCB ⟨.ucRTUBuf 0, 3⟩ 1 8 .regRead) (.filled 0) ↔ 0 / 8 + 8 / 8 + 1 < ucSCoilBufLen) ∧
      (InArrays (eMBRegCoilsCB ⟨.ucRTUBuf 0, 3⟩ 1 8 .regWrite) (.filled 0) ↔
        (8 ≠ 0 → 0 / 8 + (8 + 7) / 8 < ucSCoilBufLen))) ∧
    (InArrays (eMBRegDiscreteCB ⟨.ucRTUBuf 0, 3⟩ 1 8) (.filled 0) ↔ 0 / 8 + 8 / 8 + 1 < ucSDiscInBufLen) :=
  have h := bitStores_iff ⟨.ucRTUBuf 0, 3⟩ 1 8 (.filled 0) nofun
  ⟨h.1 (by decide), h.2 (by decide)⟩

/-- Writing the last coil accesses the byte behind the array. -/
theorem not_bitStores : ¬ ∀ (p : Ptr Obj) (usAddress usN : USHORT) (s : Store), ¬ p.obj.IsMap →
    (InMap (usAddress - 1) usN sCoilNCoils →
      InArrays (eMBRegCoilsCB p usAddress usN .regRead) s ∧
      InArrays (eMBRegCoilsCB p usAddress usN .regWrite) s) ∧
    (InMap (usAddress - 1) usN sDiscreteInputNDiscretes →
      InArrays (eMBRegDiscreteCB p usAddress usN) s) := by
  intro h
  have hw := ((h ⟨.ucRTUBuf 0, 3⟩ 64 1 (.filled 0) nofun).1 (by decide)).2
  exact absurd (hw.1 8 (by decide)) (by decide)

end Rs485.Modbus
