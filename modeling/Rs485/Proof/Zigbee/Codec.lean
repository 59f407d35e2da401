import Mathlib.Data.List.GetD
import Mathlib.Tactic.IntervalCases
import Rs485.Proof.Zigbee.Read

/-!
# The parameter codec

`zigbeeGetWriteIns` lays out the parameters for the module, and `zigbeeReadProcess` reads
them off its reply, where the fields that only the module sets stand between them.
`replyBody` is the body of the reply to what was written. `readParam_replyBody` goes
through its four segments, and `codec_roundtrip` is the whole way.
-/

namespace Rs485.Zigbee

open Rs485.Framework

/-- `writeHeaderLen`. -/
abbrev writeHeaderLen : Nat := 3

/-- `writeInsLen`. -/
abbrev writeInsLen : Nat := 42

/-! ## The reply to a write -/

/-- The body of a reply that has the parameters of the write frame `w`, and those of `ro` where only
the module sets them. -/
def replyBody (w : List Byte) (ro : ZigbeeParameter) : List Byte :=
  let b := w.drop writeHeaderLen
  b.take 16 ++ ro.macAddress.toList ++ (b.drop 16).take 16 ++
    (hiLo ro.shortAddress ++ [ro.x42] ++ (b.drop 33).take 5)

/-- The whole reply. -/
def parameterReply (fourth : Byte) (w : List Byte) (ro : ZigbeeParameter) : List Byte :=
  let bytes := [0xFA, 0x31, 0x0A, fourth] ++ replyBody w ro
  bytes ++ [sumXY bytes]

/-- `p`, with what only the module sets from `ro`. -/
def ZigbeeParameter.withReadOnly (p ro : ZigbeeParameter) : ZigbeeParameter :=
  { p with macAddress := ro.macAddress, shortAddress := ro.shortAddress, x42 := ro.x42 }

/-! ## Bytes, sums and words -/

/-- The sum of the bytes, as a number. -/
theorem foldl_toNat (bytes : List Byte) (x : Byte) :
    (bytes.foldl (· + ·) x).toNat = bytes.foldl (fun n b => n + b.toNat) x.toNat % 256 := by
  have hmod : ∀ (bytes : List Byte) (m n : Nat), m % 256 = n % 256 →
      bytes.foldl (fun n b => n + b.toNat) m % 256 = bytes.foldl (fun n b => n + b.toNat) n % 256 := by
    intro bytes
    induction bytes with
    | nil => exact fun _ _ h => h
    | cons b bytes ih =>
      intro m n h
      have hb : (m + b.toNat) % 256 = (n + b.toNat) % 256 := by omega
      exact ih _ _ hb
  induction bytes generalizing x with
  | nil => exact (Nat.mod_eq_of_lt x.isLt).symm
  | cons b bytes ih =>
    rw [List.foldl_cons, List.foldl_cons, ih]
    exact hmod bytes _ _ (by simp only [BitVec.toNat_add, Nat.mod_mod, Nat.reducePow])

/-- A word put together from its bytes. -/
theorem word_hiLo (w : Word) : (((w &&& 0xFF00) >>> 8).setWidth 8 : Byte).setWidth 16 * 256 +
    ((w &&& 0x00FF).setWidth 8 : Byte).setWidth 16 = w := by
  apply BitVec.eq_of_toNat_eq
  have hw := w.isLt
  have hhi : (w.toNat &&& 0xFF00) >>> 8 = w.toNat / 256 := by
    rw [Nat.shiftRight_and_distrib, show 0xFF00 >>> 8 = 2 ^ 8 - 1 from rfl, Nat.and_two_pow_sub_one_eq_mod,
      Nat.shiftRight_eq_div_pow]
    omega
  have hlo : w.toNat &&& 0x00FF = w.toNat % 256 := Nat.and_two_pow_sub_one_eq_mod w.toNat 8
  rw [BitVec.toNat_add, BitVec.toNat_mul, BitVec.toNat_setWidth, BitVec.toNat_setWidth, BitVec.toNat_setWidth,
    BitVec.toNat_setWidth, BitVec.toNat_ushiftRight, BitVec.toNat_and, BitVec.toNat_and,
    show (0xFF00 : Word).toNat = 0xFF00 from rfl, show (0x00FF : Word).toNat = 0x00FF from rfl,
    show (256 : Word).toNat = 256 from rfl, hhi, hlo]
  omega

section

variable (p ro : ZigbeeParameter)

/-- The bytes of the security code, one by one. -/
theorem toList_four (v : Vector Byte 4) : v.toList = [v[0], v[1], v[2], v[3]] := by
  obtain ⟨⟨bytes⟩, h⟩ := v
  match bytes, h with
  | [_, _, _, _], _ => rfl

/-- The bytes of the address, one by one. -/
theorem toList_eight (v : Vector Byte 8) :
    v.toList = [v[0], v[1], v[2], v[3], v[4], v[5], v[6], v[7]] := by
  obtain ⟨⟨bytes⟩, h⟩ := v
  match bytes, h with
  | [_, _, _, _, _, _, _, _], _ => rfl

/-- Each field comes back from its place in the reply. -/
theorem readParam_replyBody : readParam (replyBody (zigbeeGetWriteIns p) ro) = p.withReadOnly ro := by
  -- The reply, byte by byte; the equation of `writeBody` is slow to make.
  rw [replyBody, zigbeeGetWriteIns]
  delta writeBody
  simp only [hiLo, writeHeaderLen, toList_four, toList_eight, List.cons_append, List.nil_append,
    List.drop_succ_cons, List.drop_zero, List.take_succ_cons, List.take_zero]
  simp only [readParam, word, List.getD_cons_zero, List.getD_cons_succ, Nat.reduceAdd, word_hiLo]
  rw [ZigbeeParameter.withReadOnly, ZigbeeParameter.mk.injEq]
  simp only [true_and]
  constructor <;>
  · refine Vector.ext fun i hi => ?_
    rw [Vector.getElem_ofFn]
    interval_cases i <;> rfl

theorem length_writeBody : (writeBody p).length = 38 := by
  delta writeBody
  simp [hiLo]

theorem length_replyBody : (replyBody (zigbeeGetWriteIns p) ro).length = 48 := by
  simp [replyBody, zigbeeGetWriteIns, length_writeBody, hiLo]

end

section

variable {p ro : ZigbeeParameter} {fourth : Byte} {z : ZigbeeMesh}

/-- The reply passes the parser's test, and its body is where the parser reads. -/
theorem reply_right (hz : input 53 z = parameterReply fourth (zigbeeGetWriteIns p) ro) :
    Right 0x31 53 z ∧ body z = replyBody (zigbeeGetWriteIns p) ro := by
  have hlen := length_replyBody p ro
  rw [right_input, ← body_input, hz, parameterReply]
  generalize replyBody (zigbeeGetWriteIns p) ro = b at hlen
  have hbytes : ([0xFA, 0x31, 0x0A, fourth] ++ b).length = 52 := by rw [List.length_append, hlen]; rfl
  refine ⟨⟨rfl, ?_⟩, ?_⟩
  · rw [List.getD_append_right _ _ _ _ hbytes.le, hbytes, List.take_left' hbytes]
    rfl
  · exact List.take_left' hlen

end

/-- The write frame has its length, its header and its sum, and a reply with the same parameters, with any
fourth byte and whatever the module sets itself, is accepted and gives them back. -/
theorem codec_roundtrip (p : ZigbeeParameter) :
    (zigbeeGetWriteIns p).length = writeInsLen ∧ (zigbeeGetWriteIns p).take 3 = [0xFC, 0x27, 0x07] ∧
    ((zigbeeGetWriteIns p).getD 41 0).toNat =
      ((zigbeeGetWriteIns p).take 41).foldl (fun n b => n + b.toNat) 0 % 256 ∧
    ∀ (ro : ZigbeeParameter) (fourth : Byte) (z : ZigbeeMesh),
      input 53 z = parameterReply fourth (zigbeeGetWriteIns p) ro →
      (call (zigbeeReadProcess 53) z).1 = .success ∧
        (call (zigbeeReadProcess 53) z).2.param = p.withReadOnly ro := by
  have hlen : ([0xFC, 0x27, 0x07] ++ writeBody p).length = 41 := by
    rw [List.length_append, length_writeBody]
    rfl
  refine ⟨?_, rfl, ?_, fun ro fourth z hz => ?_⟩
  · rw [zigbeeGetWriteIns, List.length_append, hlen]
    rfl
  · rw [zigbeeGetWriteIns, List.getD_append_right _ _ _ _ hlen.le, hlen, List.take_left' hlen]
    generalize [0xFC, 0x27, 0x07] ++ writeBody p = bytes
    exact foldl_toNat bytes 0
  · obtain ⟨hright, hbody⟩ := reply_right hz
    obtain ⟨hres, hparam⟩ := readProcess_accepts hright
    exact ⟨hres, by rw [hparam, hbody, readParam_replyBody]⟩

/-- Parameters whose words have two different bytes. -/
def someParameter : ZigbeeParameter :=
  { ZigbeeParameter.zero with panID := 0x1234, userAddress := 0xFFFE, x37x38 := 0x00FF }

theorem codec_roundtrip_some :
    let z := waiting .readModule (parameterReply 0x35 (zigbeeGetWriteIns someParameter) .zero)
    (call (zigbeeReadProcess 53) z).2.param = someParameter :=
  ((codec_roundtrip someParameter).2.2.2 .zero 0x35 _ (by decide +kernel)).2

end Rs485.Zigbee
