import Rs485.Impl.Modbus.Types

/-!
# Bit fields and errors (`mbutils.c`)
-/

namespace Rs485.Modbus

open Rs485.Framework

/-- `xMBUtilSetBits`; `assert( ucNBits <= 8 )` is the last argument. -/
def xMBUtilSetBits (ucByteBuf : Ptr Obj) (usBitOffset ucNBits : Nat) (ucValue : UCHAR)
    (_ : ucNBits ≤ 8) : StoreM Unit := do
  let usByteOffset := usBitOffset / 8
  let usNPreBits := usBitOffset - usByteOffset * 8
  let usValue : USHORT := ucValue.setWidth 16 <<< usNPreBits
  let usMask : USHORT := ((1 : USHORT) <<< ucNBits) - 1
  let usMask := usMask <<< (usBitOffset - usByteOffset * 8)
  let lo ← rd (ucByteBuf.add usByteOffset)
  let hi ← rd (ucByteBuf.add (usByteOffset + 1))
  let usWordBuf : USHORT := lo.setWidth 16 ||| hi.setWidth 16 <<< 8
  let usWordBuf := usWordBuf &&& ~~~usMask ||| usValue
  wr (ucByteBuf.add usByteOffset) (usWordBuf.setWidth 8)
  wr (ucByteBuf.add (usByteOffset + 1)) ((usWordBuf >>> 8).setWidth 8)

/-- `xMBUtilGetBits`. -/
def xMBUtilGetBits (ucByteBuf : Ptr Obj) (usBitOffset ucNBits : Nat) : StoreM UCHAR := do
  let usByteOffset := usBitOffset / 8
  let usNPreBits := usBitOffset - usByteOffset * 8
  let usMask : USHORT := ((1 : USHORT) <<< ucNBits) - 1
  let lo ← rd (ucByteBuf.add usByteOffset)
  let hi ← rd (ucByteBuf.add (usByteOffset + 1))
  let usWordBuf : USHORT := lo.setWidth 16 ||| hi.setWidth 16 <<< 8
  let usWordBuf := usWordBuf >>> usNPreBits
  let usWordBuf := usWordBuf &&& usMask
  return usWordBuf.setWidth 8

/-- `prveMBError2Exception`. -/
def prveMBError2Exception : MBErrorCode → MBException
  | .enoerr => .exNone
  | .enoreg => .exIllegalDataAddress
  | .etimedout => .exSlaveBusy
  | _ => .exSlaveDeviceFailure

end Rs485.Modbus
