import Mathlib.Data.List.GetD

/-!
# Cyclic redundancy checks, bit by bit

A reflected CRC register of `w` bits for the polynomial `p` (its coefficient of
`x^w` left out, that of `x^(w-1)` in bit 0): the bits of a string are shifted in
one by one (`crcBits`). The register is linear in the bits (`crcBits_xor`), so
that two strings of one length leave the same register just if their difference
leaves zero in a register that was zero (`crcBits_eq_iff`).

If the constant term of the polynomial is one (bit `w - 1` of `p`) a register can
be run backwards: a string of at most `w` bits leaves zero only in the register
that holds these bits (`crcBits_eq_zero`). From this come the table of a CRC
taken bytewise (`crcBits_eq_shift`), and what a CRC detects: a burst of `w` bits
(`crcBits_burst`), an odd number of errors if `x + 1` divides the polynomial
(`parity_crcBits`), and two errors closer than the order of `x` (`crcBits_two`).
-/

namespace Rs485.Framework

variable {w : Nat}

/-- One bit shifted into the register. -/
def crcBit (p c : BitVec w) (b : Bool) : BitVec w :=
  if c.getLsbD 0 ^^ b then c >>> 1 ^^^ p else c >>> 1

/-- The register after the bits `bs`. -/
def crcBits (p c : BitVec w) (bs : List Bool) : BitVec w := bs.foldl (crcBit p) c

variable {p c d : BitVec w} {as bs : List Bool} {b : Bool}

@[simp] theorem crcBits_nil : crcBits p c [] = c := rfl

@[simp] theorem crcBits_cons : crcBits p c (b :: bs) = crcBits p (crcBit p c b) bs := rfl

theorem crcBits_append : crcBits p c (as ++ bs) = crcBits p (crcBits p c as) bs := List.foldl_append

theorem crcBit_getLsbD (i : Nat) :
    (crcBit p c b).getLsbD i = (c.getLsbD (i + 1) ^^ ((c.getLsbD 0 ^^ b) && p.getLsbD i)) := by
  rw [crcBit]
  split
  · rename_i h
    rw [BitVec.getLsbD_xor, BitVec.getLsbD_ushiftRight, h, Bool.true_and, Nat.add_comm]
  · rename_i h
    rw [BitVec.getLsbD_ushiftRight, eq_false_of_ne_true h, Bool.false_and, Bool.xor_false, Nat.add_comm]

/-! ## Linearity -/

theorem crcBit_xor (a b : Bool) : crcBit p (c ^^^ d) (a ^^ b) = crcBit p c a ^^^ crcBit p d b := by
  apply BitVec.eq_of_getLsbD_eq
  intro i _
  simp only [crcBit_getLsbD, BitVec.getLsbD_xor]
  cases p.getLsbD i
  · simp only [Bool.and_false, Bool.xor_false]
  · simp only [Bool.and_true]
    cases c.getLsbD 0 <;> cases d.getLsbD 0 <;> cases a <;> cases b <;> simp

theorem crcBits_xor (h : as.length = bs.length) :
    crcBits p (c ^^^ d) (List.zipWith xor as bs) = crcBits p c as ^^^ crcBits p d bs := by
  induction as generalizing c d bs with
  | nil =>
    obtain rfl := List.length_eq_zero_iff.mp h.symm
    rfl
  | cons a as ih =>
    obtain ⟨b, bs, rfl⟩ := List.exists_cons_of_length_pos (l := bs) (h ▸ Nat.succ_pos _)
    rw [List.zipWith_cons_cons, crcBits_cons, crcBits_cons, crcBits_cons, crcBit_xor]
    exact ih (Nat.succ.inj h)

/-- An error is seen in the register if it leaves something in a register that was zero. -/
theorem crcBits_eq_iff (h : as.length = bs.length) :
    crcBits p c (List.zipWith xor as bs) = crcBits p c as ↔ crcBits p 0 bs = 0 := by
  have hx := crcBits_xor (p := p) (c := c) (d := 0) h
  rw [show c ^^^ 0 = c from BitVec.xor_zero] at hx
  rw [hx]
  constructor
  · intro h
    have h' := congrArg (crcBits p c as ^^^ ·) h
    simpa [← BitVec.xor_assoc] using h'
  · intro h
    rw [h]
    exact BitVec.xor_zero

/-- Zeros leave a zero register alone. -/
theorem crcBits_zeros (n : Nat) : crcBits p 0 (List.replicate n false) = 0 := by
  induction n with
  | zero => rfl
  | succ n ih =>
    rw [List.replicate_succ, crcBits_cons, show crcBit p 0 false = 0 by simp [crcBit]]
    exact ih

/-! ## Backwards -/

section Backwards

variable (hp : p.getLsbD (w - 1) = true) (hw : 0 < w)
include hp hw

/-- At most `w` bits leave zero only in the register that holds them. -/
theorem crcBits_eq_zero (h : bs.length ≤ w) :
    crcBits p c bs = 0 ↔ ∀ i, c.getLsbD i = bs.getD i false := by
  induction bs generalizing c with
  | nil =>
    rw [crcBits_nil]
    constructor
    · rintro rfl i
      simp
    · intro h
      exact BitVec.eq_of_getLsbD_eq fun i _ => by simpa using h i
  | cons b bs ih =>
    rw [crcBits_cons, ih (by rw [List.length_cons] at h; omega)]
    rw [List.length_cons] at h
    constructor
    · intro hc
      -- The feedback would stay in the top bit, which the bits still to come do not reach.
      have hfb : (c.getLsbD 0 ^^ b) = false := by
        have htop := hc (w - 1)
        rw [crcBit_getLsbD, hp, BitVec.getLsbD_of_ge c _ (by omega),
          List.getD_eq_default _ _ (by omega)] at htop
        simpa using htop
      intro i
      cases i with
      | zero => simpa using hfb
      | succ i =>
        have hi := hc i
        rw [crcBit_getLsbD, hfb, Bool.false_and, Bool.xor_false] at hi
        simpa using hi
    · intro hc i
      have h0 : (c.getLsbD 0 ^^ b) = false := by simpa using hc 0
      rw [crcBit_getLsbD, h0, Bool.false_and, Bool.xor_false]
      simpa using hc (i + 1)

/-- A register that zeros clear was clear. -/
theorem crcBits_zeros_eq_zero (n : Nat) : crcBits p c (List.replicate n false) = 0 ↔ c = 0 := by
  constructor
  · intro h
    induction n generalizing c with
    | zero => exact h
    | succ n ih =>
      rw [List.replicate_succ, crcBits_cons] at h
      have h1 := (crcBits_eq_zero hp hw (show [false].length ≤ w from hw)).mp (ih h)
      exact BitVec.eq_of_getLsbD_eq fun i _ => by
        have := h1 i
        cases i <;> simpa using this
  · rintro rfl
    exact crcBits_zeros n

/-- A burst of at most `w` bits leaves zero only if no bit of it is set. -/
theorem crcBits_burst {i j : Nat} (h : bs.length ≤ w)
    (h0 : crcBits p 0 (List.replicate i false ++ bs ++ List.replicate j false) = 0) : true ∉ bs := by
  rw [crcBits_append, crcBits_append, crcBits_zeros, crcBits_zeros_eq_zero hp hw,
    crcBits_eq_zero hp hw h] at h0
  intro hmem
  obtain ⟨k, hk, htrue⟩ := List.mem_iff_getElem.mp hmem
  have := h0 k
  rw [List.getD_eq_getElem _ _ hk, htrue] at this
  simp at this

/-- Two set bits leave zero only if the zeros between them bring `p` to `1`. -/
theorem crcBits_two {i k j : Nat} (h0 : crcBits p 0 (List.replicate i false ++ true ::
      (List.replicate k false ++ true :: List.replicate j false)) = 0) :
    crcBits p p (List.replicate k false) = BitVec.ofNat w 1 := by
  rw [crcBits_append, crcBits_zeros, crcBits_cons, show crcBit p 0 true = p by simp [crcBit],
    crcBits_append, crcBits_cons, crcBits_zeros_eq_zero hp hw] at h0
  have h1 := (crcBits_eq_zero hp hw (show [true].length ≤ w from hw)).mp h0
  refine BitVec.eq_of_getLsbD_eq fun n hn => ?_
  rw [h1 n, BitVec.getLsbD_ofNat, decide_eq_true hn, Bool.true_and]
  cases n <;> simp [Nat.testBit_succ]

end Backwards

/-! ## Bytewise -/

/-- Zeros move bits down that have zeros below them. -/
theorem crcBits_zeros_eq_shift {n : Nat} (h : ∀ i < n, c.getLsbD i = false) :
    crcBits p c (List.replicate n false) = c >>> n := by
  induction n generalizing c with
  | zero => simp
  | succ n ih =>
    have hbit : crcBit p c false = c >>> 1 := by
      rw [crcBit, h 0 (Nat.succ_pos n)]
      rfl
    rw [List.replicate_succ, crcBits_cons, hbit, ih fun i hi => ?_, ← BitVec.shiftRight_add, Nat.add_comm 1 n]
    rw [BitVec.getLsbD_ushiftRight]
    exact h _ (by omega)

/-- The bits `bs` shifted in: the low bits of the register are taken together with them (`e`),
and the others move down. -/
theorem crcBits_eq_shift (hp : p.getLsbD (w - 1) = true) (hw : 0 < w) (h : bs.length ≤ w) {e : BitVec w}
    (he : ∀ i, e.getLsbD i = (decide (i < bs.length) && (c.getLsbD i ^^ bs.getD i false))) :
    crcBits p c bs = c >>> bs.length ^^^ crcBits p e (List.replicate bs.length false) := by
  let hi : BitVec w := (c >>> bs.length) <<< bs.length
  have hhi (i : Nat) : hi.getLsbD i = (decide (bs.length ≤ i) && c.getLsbD i) := by
    by_cases hn : bs.length ≤ i
    · by_cases hiw : i < w
      · simp [hi, hn, hiw, Nat.not_lt.mpr hn]
      · simp [hi, hn, hiw, BitVec.getLsbD_of_ge c i (by omega)]
    · simp [hi, hn, Nat.lt_of_not_le hn]
  -- What the register has to hold for `bs` to clear it.
  have hv : crcBits p (c ^^^ (hi ^^^ e)) bs = 0 := by
    refine (crcBits_eq_zero hp hw h).mpr fun i => ?_
    rw [BitVec.getLsbD_xor, BitVec.getLsbD_xor, hhi, he]
    by_cases hn : i < bs.length
    · simp [hn, Nat.not_le.mpr hn]
    · simp [hn, Nat.le_of_not_lt hn]
  have hshift : crcBits p hi (List.replicate bs.length false) = c >>> bs.length := by
    rw [crcBits_zeros_eq_shift fun i hi => by rw [hhi, decide_eq_false (Nat.not_le.mpr hi), Bool.false_and]]
    refine BitVec.eq_of_getLsbD_eq fun i _ => ?_
    rw [BitVec.getLsbD_ushiftRight, BitVec.getLsbD_ushiftRight, hhi, decide_eq_true (Nat.le_add_right _ _),
      Bool.true_and]
  have hbs : List.zipWith xor bs (List.replicate bs.length false) = bs := by
    apply List.ext_getElem <;> simp
  have hz : List.zipWith xor (List.replicate bs.length false) (List.replicate bs.length false) =
      List.replicate bs.length false := by
    apply List.ext_getElem <;> simp
  calc crcBits p c bs
      = crcBits p (c ^^^ (hi ^^^ e) ^^^ (hi ^^^ e)) (List.zipWith xor bs (List.replicate bs.length false)) := by
        rw [hbs, BitVec.xor_assoc, BitVec.xor_self, BitVec.xor_zero]
    _ = crcBits p (hi ^^^ e) (List.replicate bs.length false) := by
        rw [crcBits_xor (by simp), hv]
        exact BitVec.zero_xor
    _ = c >>> bs.length ^^^ crcBits p e (List.replicate bs.length false) := by
        rw [← hshift, ← crcBits_xor (by simp), hz]

/-! ## Parity -/

/-- The parity of `f 0`, …, `f (n - 1)`. -/
def parity (f : Nat → Bool) : Nat → Bool
  | 0 => false
  | n + 1 => parity f n ^^ f n

theorem parity_xor (f g : Nat → Bool) (n : Nat) :
    parity (fun i => f i ^^ g i) n = (parity f n ^^ parity g n) := by
  induction n with
  | zero => rfl
  | succ n ih =>
    rw [parity, ih, parity, parity, Bool.xor_assoc, Bool.xor_assoc, Bool.xor_left_comm (parity g n)]

theorem parity_and (a : Bool) (f : Nat → Bool) (n : Nat) :
    parity (fun i => a && f i) n = (a && parity f n) := by
  cases a
  · induction n with
    | zero => rfl
    | succ n ih => rw [parity, ih]; rfl
  · rfl

theorem parity_tail (f : Nat → Bool) (n : Nat) : parity (fun i => f (i + 1)) n = (f 0 ^^ parity f (n + 1)) := by
  induction n with
  | zero => cases h : f 0 <;> simp [parity, h]
  | succ n ih =>
    rw [parity, ih, Bool.xor_assoc]
    rfl

/-- If `x + 1` divides the polynomial, the parity of the register is that of the bits. -/
theorem parity_crcBits (hp : parity p.getLsbD w = true) (c : BitVec w) (bs : List Bool) :
    parity (crcBits p c bs).getLsbD w = (parity c.getLsbD w ^^ decide (bs.count true % 2 = 1)) := by
  induction bs generalizing c with
  | nil => simp
  | cons b bs ih =>
    have hbit : parity (crcBit p c b).getLsbD w = (parity c.getLsbD w ^^ b) := by
      rw [show (crcBit p c b).getLsbD = _ from funext crcBit_getLsbD, parity_xor, parity_and, parity_tail,
        parity, BitVec.getLsbD_of_ge c w (Nat.le_refl w), hp]
      cases c.getLsbD 0 <;> cases b <;> simp
    rw [crcBits_cons, ih, hbit, List.count_cons, Bool.xor_assoc]
    congr 1
    cases b
    · simp
    · rcases Nat.mod_two_eq_zero_or_one (bs.count true) with h | h <;> simp [Nat.add_mod, h]

/-! ## Errors -/

/-- The first set bit. -/
theorem exists_first {n : Nat} (h : bs.count true = n + 1) :
    ∃ i as, bs = List.replicate i false ++ true :: as ∧ as.count true = n := by
  induction bs with
  | nil => simp at h
  | cons b bs ih =>
    cases b with
    | true => exact ⟨0, bs, rfl, by simpa using h⟩
    | false =>
      obtain ⟨i, as, rfl, has⟩ := ih (by simpa using h)
      exact ⟨i + 1, as, by rw [List.replicate_succ, List.cons_append], has⟩

theorem eq_replicate_of_count (h : bs.count true = 0) : bs = List.replicate bs.length false :=
  List.eq_replicate_iff.mpr ⟨rfl, fun b hb => by
    cases b with
    | false => rfl
    | true => exact absurd hb (List.count_eq_zero.mp h)⟩

/-- The bits of a string of bytes, in the order a UART sends them: the low bit of a byte first. -/
def wireBits (bs : List (BitVec 8)) : List Bool := bs.flatMap fun b => (List.range 8).map b.getLsbD

/-- The errors `e` in a string that a register of `w` bits is to detect: a burst of at most `w`
bits, two bits, or an odd number of bits. -/
def Detectable (w : Nat) (e : List Bool) : Prop :=
  (∃ i bs j, e = List.replicate i false ++ bs ++ List.replicate j false ∧ bs.length ≤ w ∧ true ∈ bs) ∨
    e.count true = 2 ∨ e.count true % 2 = 1

/-- No run of fewer than `n` zeros brings the register from `c` to `1`. -/
def avoidsOne (p : BitVec w) : Nat → BitVec w → Bool
  | 0, _ => true
  | n + 1, c => c != BitVec.ofNat w 1 && avoidsOne p n (crcBit p c false)

theorem avoidsOne_spec {n k : Nat} (h : avoidsOne p n c = true) (hk : k < n) :
    crcBits p c (List.replicate k false) ≠ BitVec.ofNat w 1 := by
  induction n generalizing c k with
  | zero => omega
  | succ n ih =>
    obtain ⟨hne, hrest⟩ := Bool.and_eq_true_iff.mp h
    cases k with
    | zero => exact bne_iff_ne.mp hne
    | succ k =>
      rw [List.replicate_succ, crcBits_cons]
      exact ih hrest (Nat.lt_of_succ_lt_succ hk)

theorem avoidsOne_mono {m n : Nat} (h : avoidsOne p n c = true) (hm : m ≤ n) : avoidsOne p m c = true := by
  induction n generalizing c m with
  | zero =>
    obtain rfl := Nat.le_zero.mp hm
    rfl
  | succ n ih =>
    obtain ⟨hne, hrest⟩ := Bool.and_eq_true_iff.mp h
    cases m with
    | zero => rfl
    | succ m => exact Bool.and_eq_true_iff.mpr ⟨hne, ih hrest (Nat.le_of_succ_le_succ hm)⟩

/-- They are detected in strings shorter than the order of `x`. -/
theorem crcBits_ne_zero (hp : p.getLsbD (w - 1) = true) (hw : 0 < w) (hodd : parity p.getLsbD w = true)
    {e : List Bool} (hord : avoidsOne p e.length p = true) (he : Detectable w e) : crcBits p 0 e ≠ 0 := by
  intro h0
  rcases he with ⟨i, bs, j, rfl, hlen, hmem⟩ | htwo | hcount
  · exact crcBits_burst hp hw hlen h0 hmem
  · obtain ⟨i, as, rfl, has⟩ := exists_first htwo
    obtain ⟨k, cs, rfl, hcs⟩ := exists_first has
    rw [eq_replicate_of_count hcs] at h0
    refine avoidsOne_spec hord ?_ (crcBits_two hp hw h0)
    simp only [List.length_append, List.length_cons, List.length_replicate]
    omega
  · have hpar := parity_crcBits hodd 0 e
    rw [h0, hcount] at hpar
    simp at hpar

end Rs485.Framework
