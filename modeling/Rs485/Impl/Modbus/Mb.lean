import Rs485.Impl.Modbus.Functions
import Rs485.Impl.Modbus.Rtu

/-!
# The poll loop of the stack (`mb.c`)

`eMBPoll` in RTU mode (`MB_ASCII_TIMEOUT_WAIT_BEFORE_SEND_MS` is 0). Its static
variables are shared by all instances, so they are a record of their own. The
parts of its event switch are separate functions, since an interrupt can come
between them.
-/

namespace Rs485.Modbus

open Rs485.Framework

/-- `MB_ADDRESS_BROADCAST`. -/
abbrev mbAddressBroadcast : UCHAR := 0

/-- The registered part of `xFuncHandlers`; the entries behind it are zero. -/
def xFuncHandlers : List (UCHAR × MBFunctionHandler) :=
  [(17, eMBFuncReportSlaveID), (4, eMBFuncReadInputRegister), (3, eMBFuncReadHoldingRegister),
    (16, eMBFuncWriteMultipleHoldingRegister), (6, eMBFuncWriteHoldingRegister),
    (23, eMBFuncReadWriteMultipleHoldingRegister), (1, eMBFuncReadCoils), (5, eMBFuncWriteCoil),
    (15, eMBFuncWriteMultipleCoils), (2, eMBFuncReadDiscreteInputs)]

/-- The search of the handler: it ends at an entry with function code 0. -/
def findHandler (ucFunctionCode : UCHAR) :
    List (UCHAR × MBFunctionHandler) → Option MBFunctionHandler
  | [] => none
  | (c, pxHandler) :: t =>
    if c = 0 then none
    else if c = ucFunctionCode then some pxHandler
    else findHandler ucFunctionCode t

/-- The static variables of `eMBPoll`. -/
structure PollVars where
  ucMBFrame : Ptr Obj
  ucRcvAddress : UCHAR
  ucFunctionCode : UCHAR
  usLength : Nat
  eException : MBException

/-- The static variables at reset. -/
def PollVars.reset : PollVars where
  ucMBFrame := ⟨.null, 0⟩
  ucRcvAddress := 0
  ucFunctionCode := 0
  usLength := 0
  eException := .exNone

/-- `case EV_FRAME_RECEIVED` up to the post: whether the frame is for this slave. -/
def pollReceive (v : PollVars) (s : Slave) : Except Assertion (Bool × PollVars × Slave) := do
  let (r, s) ← eMBRTUReceive s
  match r with
  | some (ucRcvAddress, ucMBFrame, usLength) =>
    let v := { v with ucRcvAddress := ucRcvAddress, ucMBFrame := ucMBFrame, usLength := usLength }
    return (ucRcvAddress = s.modbus.ucMBAddress ∨ ucRcvAddress = mbAddressBroadcast, v, s)
  | none => return (false, v, s)

/-- `case EV_EXECUTE` up to the reply: the handler for the function code, or
`MB_EX_ILLEGAL_FUNCTION`. -/
def pollExecute (v : PollVars) : StoreM PollVars := do
  let ucFunctionCode ← rd v.ucMBFrame
  let (eException, usLength) ← match findHandler ucFunctionCode xFuncHandlers with
    | some pxHandler => pxHandler v.ucMBFrame v.usLength
    | none => pure (.exIllegalFunction, v.usLength)
  return { v with ucFunctionCode := ucFunctionCode, eException := eException, usLength := usLength }

/-- The error frame of an exception. -/
def errorFrame (v : PollVars) : StoreM PollVars := do
  if v.eException ≠ .exNone then
    wr v.ucMBFrame (v.ucFunctionCode ||| 128)
    wr (v.ucMBFrame.add 1) v.eException.code
    return { v with usLength := 2 }
  else
    return v

/-- The reply to a request that was not a broadcast. -/
def pollReply (v : PollVars) (s : Slave) : Except Assertion (PollVars × Slave) := do
  let r := call (errorFrame v) s.store
  let (_, s) ← eMBRTUSend s.modbus.ucMBAddress r.1.ucMBFrame r.1.usLength { s with store := r.2 }
  return (r.1, s)

/-- `case EV_EXECUTE`. -/
def pollExecuteReply (v : PollVars) (s : Slave) : Except Assertion (PollVars × Slave) :=
  let r := call (pollExecute v) s.store
  let s := { s with store := r.2 }
  if r.1.ucRcvAddress ≠ mbAddressBroadcast then pollReply r.1 s else .ok (r.1, s)

/-- `eMBPoll`. -/
def eMBPoll (v : PollVars) (s : Slave) : Except Assertion (MBErrorCode × PollVars × Slave) :=
  if s.modbus.eMBState ≠ .enabled then
    .ok (.eillstate, v, s)
  else
    let r := xMBPortEventGet s.modbus
    let s := { s with modbus := r.2 }
    match r.1 with
    | some .evFrameReceived => do
      let (accepted, v, s) ← pollReceive v s
      if accepted then
        return (.enoerr, v, { s with modbus := xMBPortEventPost s.modbus .evExecute })
      else
        return (.enoerr, v, s)
    | some .evExecute => do
      let (v, s) ← pollExecuteReply v s
      return (.enoerr, v, s)
    | _ => .ok (.enoerr, v, s)

end Rs485.Modbus
