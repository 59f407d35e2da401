import Rs485.Impl.Modbus.Utils

/-!
# The register map and its callbacks (`user_mb_app.c`)

64 discrete inputs, 64 coils, 100 input registers and 100 holding registers,
each map starting at address 0. The stack passes an address one above the
0-based one; a callback subtracts 1 and checks the range. The loops of the
callbacks are the functions `…Loop`, on the counter the source counts down.
-/

namespace Rs485.Modbus

open Rs485.Framework

abbrev sDiscreteInputNDiscretes : Nat := 64
abbrev sCoilNCoils : Nat := 64
abbrev sRegInputNRegs : Nat := 100
abbrev sRegHoldingNRegs : Nat := 100

/-- The range check of the callbacks on a map of `size` items (`usAddress` after
the decrement). The maps start at 0, so that the check of the start is void; the
sum is an `int` and does not wrap. -/
def InMap (usAddress usN : USHORT) (size : Nat) : Prop :=
  usAddress.toNat + usN.toNat ≤ size

instance (usAddress usN : USHORT) (size : Nat) : Decidable (InMap usAddress usN size) :=
  inferInstanceAs (Decidable (_ ≤ _))

/-! ## Registers -/

/-- `while (usNRegs > 0)`: registers to the buffer, high byte first. -/
def readRegsLoop (o : RegObj) : Nat → Ptr Obj → Nat → StoreM Unit
  | 0, _, _ => pure ()
  | usNRegs + 1, pucRegBuffer, iRegIndex => do
    let v ← rdReg ⟨o, iRegIndex⟩
    wr pucRegBuffer ((v >>> 8).setWidth 8)
    let v ← rdReg ⟨o, iRegIndex⟩
    wr (pucRegBuffer.add 1) ((v &&& 0xFF).setWidth 8)
    readRegsLoop o usNRegs (pucRegBuffer.add 2) (iRegIndex + 1)

/-- `while (usNRegs > 0)`: the buffer to registers, high byte first. -/
def writeRegsLoop (o : RegObj) : Nat → Ptr Obj → Nat → StoreM Unit
  | 0, _, _ => pure ()
  | usNRegs + 1, pucRegBuffer, iRegIndex => do
    let hi ← rd pucRegBuffer
    wrReg ⟨o, iRegIndex⟩ (hi.setWidth 16 <<< 8)
    let lo ← rd (pucRegBuffer.add 1)
    let v ← rdReg ⟨o, iRegIndex⟩
    wrReg ⟨o, iRegIndex⟩ (v ||| lo.setWidth 16)
    writeRegsLoop o usNRegs (pucRegBuffer.add 2) (iRegIndex + 1)

/-- `eMBRegInputCB`. -/
def eMBRegInputCB (pucRegBuffer : Ptr Obj) (usAddress usNRegs : USHORT) : StoreM MBErrorCode := do
  let usAddress := usAddress - 1
  if InMap usAddress usNRegs sRegInputNRegs then
    readRegsLoop .usSRegInBuf usNRegs.toNat pucRegBuffer usAddress.toNat
    return .enoerr
  else
    return .enoreg

/-- `eMBRegHoldingCB`. -/
def eMBRegHoldingCB (pucRegBuffer : Ptr Obj) (usAddress usNRegs : USHORT)
    (eMode : MBRegisterMode) : StoreM MBErrorCode := do
  let usAddress := usAddress - 1
  if InMap usAddress usNRegs sRegHoldingNRegs then
    match eMode with
    | .regRead => readRegsLoop .usSRegHoldBuf usNRegs.toNat pucRegBuffer usAddress.toNat
    | .regWrite => writeRegsLoop .usSRegHoldBuf usNRegs.toNat pucRegBuffer usAddress.toNat
    return .enoerr
  else
    return .enoreg

/-! ## Bits -/

/-- `while (iNReg > 0)`: bits from `( o, iRegIndex )` on to the buffer, a byte a round. -/
def readBitsLoop (o : Obj) (iRegBitIndex : Nat) : Nat → Ptr Obj → Nat → StoreM (Ptr Obj)
  | 0, pucRegBuffer, _ => pure pucRegBuffer
  | iNReg + 1, pucRegBuffer, iRegIndex => do
    let v ← xMBUtilGetBits ⟨o, iRegIndex⟩ iRegBitIndex 8
    wr pucRegBuffer v
    readBitsLoop o iRegBitIndex iNReg (pucRegBuffer.add 1) (iRegIndex + 1)

/-- `while (iNReg > 1)`, on `iNReg - 1`: whole bytes of the buffer to the bits
from `( o, iRegIndex )` on. -/
def writeBitsLoop (o : Obj) (iRegBitIndex : Nat) : Nat → Ptr Obj → Nat → StoreM (Ptr Obj × Nat)
  | 0, pucRegBuffer, iRegIndex => pure (pucRegBuffer, iRegIndex)
  | iNReg + 1, pucRegBuffer, iRegIndex => do
    let v ← rd pucRegBuffer
    xMBUtilSetBits ⟨o, iRegIndex⟩ iRegBitIndex 8 v (Nat.le_refl 8)
    writeBitsLoop o iRegBitIndex iNReg (pucRegBuffer.add 1) (iRegIndex + 1)

/-- Reading `usN` bits of `o` from the 0-based `usAddress` on: `usN / 8 + 1`
bytes, then the last of them is cut to `usN % 8` bits by two shifts. -/
def readBits (o : Obj) (pucRegBuffer : Ptr Obj) (usAddress usN : USHORT) : StoreM Unit := do
  let iNReg := usN.toNat / 8 + 1
  let iRegIndex := usAddress.toNat / 8
  let iRegBitIndex := usAddress.toNat % 8
  let pucRegBuffer ← readBitsLoop o iRegBitIndex iNReg pucRegBuffer iRegIndex
  let pucRegBuffer := pucRegBuffer.pred
  let usN := usN.toNat % 8
  let v ← rd pucRegBuffer
  wr pucRegBuffer (v <<< (8 - usN))
  let v ← rd pucRegBuffer
  wr pucRegBuffer (v >>> (8 - usN))

/-- Writing `usN` bits of `o` from the 0-based `usAddress` on: `usN / 8` whole
bytes, then `usN % 8` bits of one more. -/
def writeBits (o : Obj) (pucRegBuffer : Ptr Obj) (usAddress usN : USHORT) : StoreM Unit := do
  let iNReg := usN.toNat / 8 + 1
  let iRegIndex := usAddress.toNat / 8
  let iRegBitIndex := usAddress.toNat % 8
  let (pucRegBuffer, iRegIndex) ← writeBitsLoop o iRegBitIndex (iNReg - 1) pucRegBuffer iRegIndex
  let usN := usN.toNat % 8
  if h : usN ≠ 0 then
    let v ← rd pucRegBuffer
    xMBUtilSetBits ⟨o, iRegIndex⟩ iRegBitIndex usN v
      (Nat.le_of_lt (Nat.mod_lt _ (by decide)))

/-- `eMBRegCoilsCB`. -/
def eMBRegCoilsCB (pucRegBuffer : Ptr Obj) (usAddress usNCoils : USHORT)
    (eMode : MBRegisterMode) : StoreM MBErrorCode := do
  let usAddress := usAddress - 1
  if InMap usAddress usNCoils sCoilNCoils then
    match eMode with
    | .regRead => readBits .ucSCoilBuf pucRegBuffer usAddress usNCoils
    | .regWrite => writeBits .ucSCoilBuf pucRegBuffer usAddress usNCoils
    return .enoerr
  else
    return .enoreg

/-- `eMBRegDiscreteCB`. -/
def eMBRegDiscreteCB (pucRegBuffer : Ptr Obj) (usAddress usNDiscrete : USHORT) :
    StoreM MBErrorCode := do
  let usAddress := usAddress - 1
  if InMap usAddress usNDiscrete sDiscreteInputNDiscretes then
    readBits .ucSDiscInBuf pucRegBuffer usAddress usNDiscrete
    return .enoerr
  else
    return .enoreg

end Rs485.Modbus
