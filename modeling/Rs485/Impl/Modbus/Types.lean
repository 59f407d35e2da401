import Rs485.Framework.Mem

/-!
# The Modbus slave's data

The types of the port (`port.h`), the enumerations of the stack (`mb.h`,
`mbproto.h`, `mbport.h`, `mbrtu.c`), and the memory its functions work on:
the byte objects (the frame buffer, a handler's local buffer, the two bit
stores), the two register arrays and the slave identification.
-/

namespace Rs485.Modbus

open Rs485.Framework

abbrev UCHAR := BitVec 8
abbrev USHORT := BitVec 16

/-- `eMBErrorCode`. -/
inductive MBErrorCode
  | enoerr | enoreg | einval | eporterr | enores | eio | eillstate | etimedout
deriving DecidableEq, Repr

/-- `eMBException`. -/
inductive MBException
  | exNone | exIllegalFunction | exIllegalDataAddress | exIllegalDataValue
  | exSlaveDeviceFailure | exAcknowledge | exSlaveBusy | exMemoryParityError
  | exGatewayPathFailed | exGatewayTgtFailed
deriving DecidableEq, Repr

/-- The value of an exception on the wire. -/
def MBException.code : MBException → UCHAR
  | .exNone => 0x00
  | .exIllegalFunction => 0x01
  | .exIllegalDataAddress => 0x02
  | .exIllegalDataValue => 0x03
  | .exSlaveDeviceFailure => 0x04
  | .exAcknowledge => 0x05
  | .exSlaveBusy => 0x06
  | .exMemoryParityError => 0x08
  | .exGatewayPathFailed => 0x0A
  | .exGatewayTgtFailed => 0x0B

/-- `eMBRegisterMode`. -/
inductive MBRegisterMode
  | regRead | regWrite
deriving DecidableEq, Repr

/-- `eMBEventType`. -/
inductive MBEventType
  | evReady | evFrameReceived | evExecute | evFrameSent
deriving DecidableEq, Repr

/-- `eMBRcvState`. -/
inductive MBRcvState
  | rxInit | rxIdle | rxRcv | rxError
deriving DecidableEq, Repr

/-- `eMBSndState`. -/
inductive MBSndState
  | txIdle | txXmit
deriving DecidableEq, Repr

/-- `eMBState_t`. -/
inductive MBState
  | enabled | disabled | notInitialized
deriving DecidableEq, Repr

/-- The objects of bytes: what a NULL pointer names, the frame buffer of an
instance, the local buffer of `eMBFuncWriteCoil`, the coils, the discrete inputs. -/
inductive Obj
  | null
  | ucRTUBuf (modbus : Nat)
  | ucBuf
  | ucSCoilBuf
  | ucSDiscInBuf
deriving DecidableEq, Repr

/-- The arrays of registers. -/
inductive RegObj
  | usSRegInBuf | usSRegHoldBuf
deriving DecidableEq, Repr

/-- `ucMBSlaveID` and `usMBSlaveIDLen`: the identification fits its 32-byte buffer. -/
structure SlaveID where
  ucMBSlaveID : Nat → UCHAR
  usMBSlaveIDLen : Nat
  len_lt : usMBSlaveIDLen < 32

/-- The memory the handlers and register callbacks work on. -/
structure Store where
  mem : Mem Obj UCHAR
  reg : Mem RegObj USHORT
  slaveID : SlaveID

/-- A function of the stack that works on the store. -/
abbrev StoreM := StateM Store

/-- `*p` of a byte. -/
def rd (p : Ptr Obj) : StoreM UCHAR :=
  modifyGet fun s => (s.mem.data p.obj p.off, { s with mem := s.mem.touch p })

/-- `*p = v` of a byte. -/
def wr (p : Ptr Obj) (v : UCHAR) : StoreM Unit :=
  modify fun s => { s with mem := s.mem.store p v }

/-- `*p` of a register. -/
def rdReg (p : Ptr RegObj) : StoreM USHORT :=
  modifyGet fun s => (s.reg.data p.obj p.off, { s with reg := s.reg.touch p })

/-- `*p = v` of a register. -/
def wrReg (p : Ptr RegObj) (v : USHORT) : StoreM Unit :=
  modify fun s => { s with reg := s.reg.store p v }

@[simp] theorem call_rd (p : Ptr Obj) (s : Store) :
    call (rd p) s = (s.mem.data p.obj p.off, { s with mem := s.mem.touch p }) := rfl

@[simp] theorem call_wr (p : Ptr Obj) (v : UCHAR) (s : Store) :
    call (wr p v) s = ((), { s with mem := s.mem.store p v }) := rfl

@[simp] theorem call_rdReg (p : Ptr RegObj) (s : Store) :
    call (rdReg p) s = (s.reg.data p.obj p.off, { s with reg := s.reg.touch p }) := rfl

@[simp] theorem call_wrReg (p : Ptr RegObj) (v : USHORT) (s : Store) :
    call (wrReg p v) s = ((), { s with reg := s.reg.store p v }) := rfl

/-- `( USHORT )( p[0] << 8 ) | p[1]`: the big-endian word at `p`. -/
def rdWord (p : Ptr Obj) : StoreM USHORT := do
  let hi ← rd p
  let lo ← rd (p.add 1)
  return hi ++ lo

end Rs485.Modbus
