import Rs485.Proof.Zigbee.Replies

/-!
# The parameter reply

`zigbeeReadProcess` does not look at the length of the reply, which
`zigbeeIsInsBack` compares with the length byte: a reply of another length than
53 with a right header and a right sum is accepted, and the parameters are read
from behind its end or from a part of it (`exactRead_iff`).
-/

namespace Rs485.Zigbee

open Rs485.Framework

/-- The first `n` bytes of the input. -/
def input (n : Nat) (z : ZigbeeMesh) : List Byte := (List.range n).map z.buff

/-- `zigbeeReadProcess` accepts the reply of 53 bytes with the header and the sum and nothing
else; it takes the parameters from these bytes, or leaves them alone. -/
def ExactRead (n : Nat) (z : ZigbeeMesh) : Prop :=
  let bytes := input n z
  let r := call (zigbeeReadProcess n) z
  (r.1 = .success ↔ n = 53 ∧ bytes.take 3 = [0xFA, 0x31, 0x0A] ∧ bytes.getD 52 0 = sumXY (bytes.take 52)) ∧
    (r.1 = .success → r.2.param = readParam ((bytes.drop readHeaderLen).take 48)) ∧
    (r.1 ≠ .success → r.2.param = z.param)

section

variable {n : Nat} {z : ZigbeeMesh}

theorem readProcess_accepts (h : Right 0x31 n z) :
    (call (zigbeeReadProcess n) z).1 = .success ∧ (call (zigbeeReadProcess n) z).2.param = readParam (body z) := by
  have hacc : Accepts .readModule n z := h
  have hspec := process_spec .readModule n z
  rw [if_pos hacc, if_pos ⟨rfl, hacc⟩] at hspec
  exact ⟨congrArg Prod.fst hspec, congrArg (·.2.param) hspec⟩

theorem readProcess_rejects (h : ¬ Right 0x31 n z) :
    (call (zigbeeReadProcess n) z).1 = .fail ∧ (call (zigbeeReadProcess n) z).2.param = z.param := by
  have hacc : ¬ Accepts .readModule n z := h
  have hspec := process_spec .readModule n z
  rw [if_neg hacc, if_neg fun h => hacc h.2] at hspec
  exact ⟨congrArg Prod.fst hspec, congrArg (·.2.param) hspec⟩

variable (z) in
/-- The test of the parser, on a reply of 53 bytes. -/
theorem right_input : Right 0x31 53 z ↔ (input 53 z).take 3 = [0xFA, 0x31, 0x0A] ∧
    (input 53 z).getD 52 0 = sumXY ((input 53 z).take 52) := by
  have hhead : (input 53 z).take 3 = [z.buff 0, z.buff 1, z.buff 2] := rfl
  rw [hhead, List.cons.injEq, List.cons.injEq, List.cons.injEq, and_iff_left rfl, and_assoc, and_assoc]
  exact Iff.rfl

variable (z) in
/-- The body of a reply of 53 bytes. -/
theorem body_input : ((input 53 z).drop readHeaderLen).take 48 = body z := rfl

end

/-- The parser is exact just on the replies of 53 bytes, and on those that fail its own test. -/
theorem exactRead_iff (n : Nat) (z : ZigbeeMesh) : ExactRead n z ↔ n = 53 ∨ ¬ Right 0x31 n z := by
  by_cases h : Right 0x31 n z
  · obtain ⟨hres, hparam⟩ := readProcess_accepts h
    constructor
    · intro hex
      exact Or.inl (hex.1.mp hres).1
    · rintro (rfl | hn)
      · exact ⟨iff_of_true hres ⟨rfl, (right_input z).mp h⟩, fun _ => by rw [hparam, body_input],
          fun hne => absurd hres hne⟩
      · exact absurd h hn
  · obtain ⟨hres, hparam⟩ := readProcess_rejects h
    have hne : (call (zigbeeReadProcess n) z).1 ≠ .success := by
      rw [hres]
      exact nofun
    refine iff_of_true ⟨iff_of_false hne ?_, fun h => absurd h hne, fun _ => hparam⟩ (Or.inr h)
    rintro ⟨rfl, hright⟩
    exact h ((right_input z).mpr hright)

/-- Four bytes whose last is the sum of the header. -/
def shortReply : List Byte := [0xFA, 0x31, 0x0A, 0x35]

/-- The four bytes are accepted, and the parameters read from what is behind them. -/
theorem not_exactRead : ¬ ∀ (n : Nat) (z : ZigbeeMesh), ExactRead n z := by
  intro h
  have hres := (h 4 (waiting .readModule shortReply)).1.mp (by decide)
  exact absurd hres.1 (by decide)

end Rs485.Zigbee
