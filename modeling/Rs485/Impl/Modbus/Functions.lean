import Rs485.Impl.Modbus.Regs

/-!
# The function handlers (`functions/mbfunc*.c`)

A handler works on the PDU at `pucFrame` (function code first) and on its
length, which it returns changed. All offsets are those of the source:
`MB_PDU_FUNC_OFF` is 0 and `MB_PDU_DATA_OFF` is 1.
-/

namespace Rs485.Modbus

open Rs485.Framework

/-- `pxMBFunctionHandler`: the exception, and the new value of `*pusLength`. -/
abbrev MBFunctionHandler := Ptr Obj → Nat → StoreM (MBException × Nat)

/-- `eRegStatus` of a write as an exception, and the length of the reply. -/
def finish (eRegStatus : MBErrorCode) (usLen usLenOk : Nat) : StoreM (MBException × Nat) :=
  if eRegStatus ≠ .enoerr then
    return (prveMBError2Exception eRegStatus, usLen)
  else
    return (.exNone, usLenOk)

/-- The reply of a read request, over the request: the function code, the byte
count, and what the register callback puts behind them. -/
def readReply (pucFrame : Ptr Obj) (ucFunctionCode ucByteCount : UCHAR) (nBytes : Nat)
    (regCB : Ptr Obj → StoreM MBErrorCode) : StoreM (MBException × Nat) := do
  wr pucFrame ucFunctionCode
  wr (pucFrame.add 1) ucByteCount
  let eRegStatus ← regCB (pucFrame.add 2)
  finish eRegStatus 2 (2 + nBytes)

/-- `ucNBytes`: the bytes that hold `n` bits, cut to a `UCHAR`. -/
def nBytes (n : USHORT) : UCHAR :=
  if n &&& 0x0007 ≠ 0 then BitVec.ofNat 8 (n.toNat / 8 + 1) else BitVec.ofNat 8 (n.toNat / 8)

/-! ## Coils and discrete inputs (`mbfunccoils.c`, `mbfuncdisc.c`) -/

/-- The body that `eMBFuncReadCoils` and `eMBFuncReadDiscreteInputs` share. -/
def readBitsRequest (ucFunctionCode : UCHAR)
    (regCB : Ptr Obj → USHORT → USHORT → StoreM MBErrorCode) : MBFunctionHandler :=
  fun pucFrame usLen => do
    if usLen = 4 + 1 then
      let usRegAddress ← rdWord (pucFrame.add 1)
      let usCount ← rdWord (pucFrame.add 3)
      if 1 ≤ usCount.toNat ∧ usCount.toNat < 0x07D0 then
        let ucNBytes := nBytes usCount
        readReply pucFrame ucFunctionCode ucNBytes ucNBytes.toNat fun p =>
          regCB p (usRegAddress + 1) usCount
      else
        return (.exIllegalDataValue, usLen)
    else
      return (.exIllegalDataValue, usLen)

/-- `eMBFuncReadCoils`. -/
def eMBFuncReadCoils : MBFunctionHandler :=
  readBitsRequest 1 fun p usAddress usNCoils => eMBRegCoilsCB p usAddress usNCoils .regRead

/-- `eMBFuncReadDiscreteInputs`. -/
def eMBFuncReadDiscreteInputs : MBFunctionHandler :=
  readBitsRequest 2 eMBRegDiscreteCB

/-- `eMBFuncWriteCoil`: the value `FF 00` or `00 00`, passed on in `ucBuf`. -/
def eMBFuncWriteCoil : MBFunctionHandler := fun pucFrame usLen => do
  if usLen = 4 + 1 then
    let usRegAddress ← rdWord (pucFrame.add 1)
    let lo ← rd (pucFrame.add 4)
    let hi ← rd (pucFrame.add 3)
    if lo = 0x00 ∧ (hi = 0xFF ∨ hi = 0x00) then
      wr ⟨.ucBuf, 1⟩ 0
      wr ⟨.ucBuf, 0⟩ (if hi = 0xFF then 1 else 0)
      let eRegStatus ← eMBRegCoilsCB ⟨.ucBuf, 0⟩ (usRegAddress + 1) 1 .regWrite
      finish eRegStatus usLen usLen
    else
      return (.exIllegalDataValue, usLen)
  else
    return (.exIllegalDataValue, usLen)

/-- `eMBFuncWriteMultipleCoils`. -/
def eMBFuncWriteMultipleCoils : MBFunctionHandler := fun pucFrame usLen => do
  if usLen > 4 + 1 then
    let usRegAddress ← rdWord (pucFrame.add 1)
    let usCoilCnt ← rdWord (pucFrame.add 3)
    let ucByteCount ← rd (pucFrame.add 5)
    let ucByteCountVerify := nBytes usCoilCnt
    if 1 ≤ usCoilCnt.toNat ∧ usCoilCnt.toNat ≤ 0x07B0 ∧ ucByteCountVerify = ucByteCount then
      let eRegStatus ← eMBRegCoilsCB (pucFrame.add 6) (usRegAddress + 1) usCoilCnt .regWrite
      finish eRegStatus usLen 5
    else
      return (.exIllegalDataValue, usLen)
  else
    return (.exIllegalDataValue, usLen)

/-! ## Input registers (`mbfuncinput.c`) -/

/-- `eMBFuncReadInputRegister`. -/
def eMBFuncReadInputRegister : MBFunctionHandler := fun pucFrame usLen => do
  if usLen = 4 + 1 then
    let usRegAddress ← rdWord (pucFrame.add 1)
    let usRegCount ← rdWord (pucFrame.add 3)
    if 1 ≤ usRegCount.toNat ∧ usRegCount.toNat < 0x007D then
      readReply pucFrame 4 (BitVec.ofNat 8 (usRegCount.toNat * 2)) (usRegCount.toNat * 2) fun p =>
        eMBRegInputCB p (usRegAddress + 1) usRegCount
    else
      return (.exIllegalDataValue, usLen)
  else
    return (.exIllegalDataValue, usLen)

/-! ## Holding registers (`mbfuncholding.c`) -/

/-- `eMBFuncWriteHoldingRegister`. -/
def eMBFuncWriteHoldingRegister : MBFunctionHandler := fun pucFrame usLen => do
  if usLen = 4 + 1 then
    let usRegAddress ← rdWord (pucFrame.add 1)
    let eRegStatus ← eMBRegHoldingCB (pucFrame.add 3) (usRegAddress + 1) 1 .regWrite
    finish eRegStatus usLen usLen
  else
    return (.exIllegalDataValue, usLen)

/-- `eMBFuncWriteMultipleHoldingRegister`. -/
def eMBFuncWriteMultipleHoldingRegister : MBFunctionHandler := fun pucFrame usLen => do
  if usLen ≥ 5 + 1 then
    let usRegAddress ← rdWord (pucFrame.add 1)
    let usRegCount ← rdWord (pucFrame.add 3)
    let ucRegByteCount ← rd (pucFrame.add 5)
    if 1 ≤ usRegCount.toNat ∧ usRegCount.toNat ≤ 0x0078 ∧
        ucRegByteCount = BitVec.ofNat 8 (2 * usRegCount.toNat) then
      let eRegStatus ← eMBRegHoldingCB (pucFrame.add 6) (usRegAddress + 1) usRegCount .regWrite
      finish eRegStatus usLen 5
    else
      return (.exIllegalDataValue, usLen)
  else
    return (.exIllegalDataValue, usLen)

/-- `eMBFuncReadHoldingRegister`: the second assignment to `usRegCount` drops the
high byte of the count. -/
def eMBFuncReadHoldingRegister : MBFunctionHandler := fun pucFrame usLen => do
  if usLen = 4 + 1 then
    let usRegAddress ← rdWord (pucFrame.add 1)
    let _ ← rd (pucFrame.add 3)
    let lo ← rd (pucFrame.add 4)
    let usRegCount : USHORT := lo.setWidth 16
    if 1 ≤ usRegCount.toNat ∧ usRegCount.toNat ≤ 0x007D then
      readReply pucFrame 3 (BitVec.ofNat 8 (usRegCount.toNat * 2)) (usRegCount.toNat * 2) fun p =>
        eMBRegHoldingCB p (usRegAddress + 1) usRegCount .regRead
    else
      return (.exIllegalDataValue, usLen)
  else
    return (.exIllegalDataValue, usLen)

/-- `eMBFuncReadWriteMultipleHoldingRegister`: the write, then the read; too
short a request is not an exception. -/
def eMBFuncReadWriteMultipleHoldingRegister : MBFunctionHandler := fun pucFrame usLen => do
  if usLen ≥ 9 + 1 then
    let usRegReadAddress ← rdWord (pucFrame.add 1)
    let usRegReadCount ← rdWord (pucFrame.add 3)
    let usRegWriteAddress ← rdWord (pucFrame.add 5)
    let usRegWriteCount ← rdWord (pucFrame.add 7)
    let ucRegWriteByteCount ← rd (pucFrame.add 9)
    if 1 ≤ usRegReadCount.toNat ∧ usRegReadCount.toNat ≤ 0x7D ∧
        1 ≤ usRegWriteCount.toNat ∧ usRegWriteCount.toNat ≤ 0x79 ∧
        2 * usRegWriteCount.toNat = ucRegWriteByteCount.toNat then
      let eRegStatus ←
        eMBRegHoldingCB (pucFrame.add 10) (usRegWriteAddress + 1) usRegWriteCount .regWrite
      if eRegStatus = .enoerr then
        readReply pucFrame 23 (BitVec.ofNat 8 (usRegReadCount.toNat * 2))
          (2 * usRegReadCount.toNat) fun p =>
            eMBRegHoldingCB p (usRegReadAddress + 1) usRegReadCount .regRead
      else
        return (prveMBError2Exception eRegStatus, usLen)
    else
      return (.exIllegalDataValue, usLen)
  else
    return (.exNone, usLen)

/-! ## The slave identification (`mbfuncother.c`) -/

/-- `memcpy` of `n` bytes of `src` to `dst`. -/
def copyIn (src : Nat → UCHAR) (dst : Ptr Obj) : Nat → StoreM Unit
  | 0 => pure ()
  | n + 1 => do
    copyIn src dst n
    wr (dst.add n) (src n)

/-- `eMBFuncReportSlaveID`. -/
def eMBFuncReportSlaveID : MBFunctionHandler := fun pucFrame _ => do
  let s ← get
  copyIn s.slaveID.ucMBSlaveID (pucFrame.add 1) s.slaveID.usMBSlaveIDLen
  return (.exNone, 1 + s.slaveID.usMBSlaveIDLen)

end Rs485.Modbus
