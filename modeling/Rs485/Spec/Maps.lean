import Rs485.Framework.Patch

/-!
# The four maps of a Modbus slave

What the register store is for, whatever bytes hold it: coils and discrete
inputs are bits, input and holding registers are words. A write overwrites a
range of one map and leaves the rest.
-/

namespace Rs485.Spec

open Rs485.Framework

/-- The contents of the coils, discrete inputs, input registers and holding registers. -/
structure Maps where
  coil : Nat → Bool
  discrete : Nat → Bool
  input : Nat → BitVec 16
  holding : Nat → BitVec 16

namespace Maps

variable (m : Maps)

/-- The coils `a`, …, `a + n - 1` set to `g 0`, `g 1`, … -/
def writeCoils (a n : Nat) (g : Nat → Bool) : Maps := { m with coil := patch m.coil a n g }

/-- The holding registers `a`, …, `a + n - 1` set to `g 0`, `g 1`, … -/
def writeHolding (a n : Nat) (g : Nat → BitVec 16) : Maps :=
  { m with holding := patch m.holding a n g }

theorem writeHolding_eq_self {a n : Nat} {g : Nat → BitVec 16} :
    m.writeHolding a n g = m ↔ ∀ i < n, g i = m.holding (a + i) := by
  rw [← patch_eq_self]
  constructor
  · intro h
    exact congrArg holding h
  · intro h
    rw [writeHolding, h]

/-- Two adjacent writes are one. -/
theorem writeHolding_writeHolding (a i n : Nat) (g : Nat → BitVec 16) :
    (m.writeHolding a i g).writeHolding (a + i) n (fun k => g (i + k)) = m.writeHolding a (i + n) g := by
  rw [writeHolding, writeHolding, writeHolding, patch_patch]

theorem writeHolding_congr {a n : Nat} {g g' : Nat → BitVec 16} (h : ∀ i < n, g i = g' i) :
    m.writeHolding a n g = m.writeHolding a n g' := by
  rw [writeHolding, writeHolding, patch_congr h]

end Maps

end Rs485.Spec
