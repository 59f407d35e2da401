import Mathlib.Data.BitVec
import Mathlib.Data.List.GetD
import Rs485.Framework.Bits
import Rs485.Framework.Words
import Rs485.Spec.Maps

/-!
# A Modbus server

What a slave with 64 coils, 64 discrete inputs, 100 input registers and 100
holding registers is for: a request (a PDU) is answered, or refused with an
exception code, and changes the maps (`serve`). A write that is refused changes
nothing; a request to write and read writes first. One answer is not what a server
is for, but what this one does: a request to write and read that is too short is
sent back, where the others are refused (`writeReadRegisters`).
-/

namespace Rs485.Spec.Server

open Rs485.Framework

/-- A protocol data unit: the function code and what belongs to it. -/
abbrev Pdu := List (BitVec 8)

def Pdu.byte (p : Pdu) (i : Nat) : BitVec 8 := p.getD i 0

/-- The big-endian word at byte `i`. -/
def Pdu.word (p : Pdu) (i : Nat) : BitVec 16 := p.byte i ++ p.byte (i + 1)

/-- The maps, and the bytes the slave identifies itself with. -/
structure State where
  maps : Maps
  id : List (BitVec 8)

inductive Answer
  | reply (pdu : Pdu)
  | refused (code : BitVec 8)
deriving DecidableEq

/-- What is sent back to a request with the function code `c`. -/
def Answer.pdu (c : BitVec 8) : Answer → Pdu
  | .reply pdu => pdu
  | .refused code => [c ||| 0x80, code]

/-- What a function code stands for. -/
abbrev Service := Pdu → State → Answer × Maps

/-! ## Reads -/

/-- `n` bits in bytes, the first in the low bit of the first byte; zeros fill the last. -/
def packed (g : Nat → Bool) (n : Nat) : Pdu :=
  (List.range ((n + 7) / 8)).map fun i =>
    BitVec.ofNat 8 (Nat.ofBits fun j : Fin 8 => decide (8 * i + j < n) && g (8 * i + j))

/-- `n` bits from `a` on are read of a map of 64. -/
def readBits (code : BitVec 8) (bits : Maps → Nat → Bool) : Service := fun pdu s =>
  let a := (pdu.word 1).toNat
  let n := (pdu.word 3).toNat
  if pdu.length = 5 ∧ 1 ≤ n ∧ n < 2000 then
    if a + n ≤ 64 then
      (.reply (code :: BitVec.ofNat 8 ((n + 7) / 8) :: packed (fun i => bits s.maps (a + i)) n), s.maps)
    else (.refused 2, s.maps)
  else (.refused 3, s.maps)

/-- The reply with `n` registers from `a` on of a map of 100. -/
def registers (code : BitVec 8) (regs : Nat → BitVec 16) (a n : Nat) : Answer :=
  if a + n ≤ 100 then
    .reply (code :: BitVec.ofNat 8 (2 * n) :: Framework.words (fun i => regs (a + i)) n)
  else .refused 2

/-- `n` registers from `a` on are read, at most `max` of them. -/
def readRegisters (code : BitVec 8) (regs : Maps → Nat → BitVec 16) (max : Nat) : Service := fun pdu s =>
  let n := (pdu.word 3).toNat
  if pdu.length = 5 ∧ 1 ≤ n ∧ n ≤ max then (registers code (regs s.maps) (pdu.word 1).toNat n, s.maps)
  else (.refused 3, s.maps)

/-- The identification. -/
def reportId : Service := fun pdu s => (.reply (pdu.byte 0 :: s.id), s.maps)

/-! ## Writes -/

/-- Coil `a` is set or cleared. -/
def writeCoil : Service := fun pdu s =>
  let a := (pdu.word 1).toNat
  if pdu.length = 5 ∧ pdu.byte 4 = 0 ∧ (pdu.byte 3 = 0xFF ∨ pdu.byte 3 = 0) then
    if a + 1 ≤ 64 then (.reply pdu, s.maps.writeCoils a 1 fun _ => pdu.byte 3 = 0xFF)
    else (.refused 2, s.maps)
  else (.refused 3, s.maps)

/-- `n` coils from `a` on are set to the bits of the value bytes. -/
def writeCoils : Service := fun pdu s =>
  let a := (pdu.word 1).toNat
  let n := (pdu.word 3).toNat
  if 6 ≤ pdu.length ∧ 1 ≤ n ∧ n ≤ 1968 ∧ (pdu.byte 5).toNat = (n + 7) / 8 then
    if a + n ≤ 64 then (.reply (pdu.take 5), s.maps.writeCoils a n (bitAt fun i => pdu.byte (6 + i)))
    else (.refused 2, s.maps)
  else (.refused 3, s.maps)

/-- Register `a` is set. -/
def writeRegister : Service := fun pdu s =>
  let a := (pdu.word 1).toNat
  if pdu.length = 5 then
    if a + 1 ≤ 100 then (.reply pdu, s.maps.writeHolding a 1 fun _ => pdu.word 3) else (.refused 2, s.maps)
  else (.refused 3, s.maps)

/-- `n` registers from `a` on are set. -/
def writeRegisters : Service := fun pdu s =>
  let a := (pdu.word 1).toNat
  let n := (pdu.word 3).toNat
  if 6 ≤ pdu.length ∧ 1 ≤ n ∧ n ≤ 120 ∧ (pdu.byte 5).toNat = 2 * n then
    if a + n ≤ 100 then (.reply (pdu.take 5), s.maps.writeHolding a n fun i => pdu.word (6 + 2 * i))
    else (.refused 2, s.maps)
  else (.refused 3, s.maps)

/-- Registers are set, then registers are read. The exception: a request without a whole header, which
a server should refuse with code 3, is sent back, as `eMBFuncReadWriteMultipleHoldingRegister` does. -/
def writeReadRegisters : Service := fun pdu s =>
  let n := (pdu.word 3).toNat
  let wa := (pdu.word 5).toNat
  let wn := (pdu.word 7).toNat
  if pdu.length < 10 then (.reply pdu, s.maps)
  else if 1 ≤ n ∧ n ≤ 125 ∧ 1 ≤ wn ∧ wn ≤ 121 ∧ (pdu.byte 9).toNat = 2 * wn then
    if wa + wn ≤ 100 then
      let m := s.maps.writeHolding wa wn fun i => pdu.word (10 + 2 * i)
      (registers 23 m.holding (pdu.word 1).toNat n, m)
    else (.refused 2, s.maps)
  else (.refused 3, s.maps)

/-! ## The server -/

/-- The services, by function code. -/
def service (c : BitVec 8) : Option Service :=
  [(1, readBits 1 Maps.coil), (2, readBits 2 Maps.discrete), (3, readRegisters 3 Maps.holding 125),
    (4, readRegisters 4 Maps.input 124), (5, writeCoil), (6, writeRegister), (15, writeCoils),
    (16, writeRegisters), (17, reportId), (23, writeReadRegisters)].lookup c

/-- What the server makes of a request. -/
def serve (pdu : Pdu) (s : State) : Answer × Maps :=
  match service (pdu.byte 0) with
  | some f => f pdu s
  | none => (.refused 1, s.maps)

/-- A request is served, and the answer forgotten. -/
def State.after (s : State) (pdu : Pdu) : State := { s with maps := (serve pdu s).2 }

end Rs485.Spec.Server
