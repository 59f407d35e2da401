import Rs485.Framework.Lts
import Rs485.Impl.Modbus.Mb

/-!
# The lifecycle of an instance (`mb.c`)

`eMBInit`, `eMBEnable`, `eMBDisable`, `eMBPoll` and `eMBClose` on one instance and its
handle, which is a block of the heap: `eMBInit` publishes it in `modbus->handle` and
frees it on an error. A block that was freed is `none`, and a call that dereferences a
pointer to one, or NULL, does not come back.

The functions of a mode (`pvMBFrameStartCur`, …) are given by the mode, as arbitrary
functions. What the sub-initialisations return is part of the call. `MB_TCP_ENABLED` and
`MB_PORT_HAS_CLOSE` are 0, so that there is no TCP mode and no `pvMBFrameCloseCur`.

`log` is no field of the source: it records the calls that came back, latest first.
-/

namespace Rs485.Modbus

open Rs485.Framework

/-- `eMBMode`. -/
inductive MBMode
  | rtu | ascii | tcp
deriving DecidableEq, Repr

/-- The frame callbacks. -/
inductive FrameCb
  | start | stop | receive | send
deriving DecidableEq, Repr

/-- The functions of a mode: what its initialisation leaves in the instance, and what its
frame callbacks do. -/
structure FrameFuncs where
  init : EModbus → UCHAR → EModbus
  pvMBFrameStart : Slave → Except Assertion Slave
  pvMBFrameStop : Slave → Except Assertion Slave
  peMBFrameReceive : Slave → Except Assertion (Option (UCHAR × Ptr Obj × Nat) × Slave)
  peMBFrameSend : UCHAR → Ptr Obj → Nat → Slave → Except Assertion (MBErrorCode × Slave)

/-- `eMBRTUStop`. -/
def eMBRTUStop (s : Slave) : Except Assertion Slave := do
  let s ← vMBPortSerialEnable xMBRTUTransmitFSM false false s
  return vMBPortTimersDisable s

/-- The functions of the RTU mode. -/
def rtuFuncs : FrameFuncs where
  init := eMBRTUInit
  pvMBFrameStart := eMBRTUStart
  pvMBFrameStop := eMBRTUStop
  peMBFrameReceive := eMBRTUReceive
  peMBFrameSend := eMBRTUSend

/-! ## The calls -/

/-- `eModbus_Handle_t`, with the mode whose functions it holds. -/
structure Handle where
  eMBState : MBState
  eMBCurrentMode : MBMode
deriving DecidableEq, Repr

/-- The arguments of `eMBInit`, and what the functions it calls return: whether `malloc` has a
block, what the initialisation of the mode says, and whether `xMBPortEventInit` succeeds. -/
structure InitArgs where
  malloc : Bool
  eMode : MBMode
  ucSlaveAddress : UCHAR
  ucPort : UCHAR
  frameInit : MBErrorCode
  eventInit : Bool
deriving DecidableEq, Repr

/-- The calls that use the handle. -/
inductive UseCall
  | eMBEnable | eMBDisable | eMBPoll | eMBClose
deriving DecidableEq, Repr

/-- A call. -/
inductive LifeCall
  | init (args : InitArgs)
  | use (call : UseCall)
deriving DecidableEq, Repr

/-- What a call leaves: what it returns, the state of its handle, the frame callbacks it has
invoked, and the event it has handled. -/
structure Returned where
  slave : Slave
  vars : PollVars
  eStatus : MBErrorCode
  eMBState : MBState
  frames : List FrameCb
  event : Option MBEventType

/-- `eMBEnable`. -/
def eMBEnable (F : FrameFuncs) (eMBState : MBState) (v : PollVars) (s : Slave) : Except Assertion Returned :=
  if eMBState = .disabled then do
    let s ← F.pvMBFrameStart s
    return ⟨s, v, .enoerr, .enabled, [.start], none⟩
  else
    .ok ⟨s, v, .eillstate, eMBState, [], none⟩

/-- `eMBDisable`. -/
def eMBDisable (F : FrameFuncs) (eMBState : MBState) (v : PollVars) (s : Slave) : Except Assertion Returned :=
  if eMBState = .enabled then do
    let s ← F.pvMBFrameStop s
    return ⟨s, v, .enoerr, .disabled, [.stop], none⟩
  else if eMBState = .disabled then
    .ok ⟨s, v, .enoerr, eMBState, [], none⟩
  else
    .ok ⟨s, v, .eillstate, eMBState, [], none⟩

/-- `eMBClose`. -/
def eMBClose (eMBState : MBState) (v : PollVars) (s : Slave) : Except Assertion Returned :=
  if eMBState = .disabled then .ok ⟨s, v, .enoerr, eMBState, [], none⟩
  else .ok ⟨s, v, .eillstate, eMBState, [], none⟩

/-- `switch ( eEvent )` of `eMBPoll`. -/
def pollSwitch (F : FrameFuncs) (eEvent : MBEventType) (v : PollVars) (s : Slave) :
    Except Assertion (PollVars × Slave × List FrameCb) :=
  match eEvent with
  | .evFrameReceived => do
    let (r, s) ← F.peMBFrameReceive s
    match r with
    | some (ucRcvAddress, ucMBFrame, usLength) =>
      let v := { v with ucRcvAddress := ucRcvAddress, ucMBFrame := ucMBFrame, usLength := usLength }
      if ucRcvAddress = s.modbus.ucMBAddress ∨ ucRcvAddress = mbAddressBroadcast then
        return (v, { s with modbus := xMBPortEventPost s.modbus .evExecute }, [.receive])
      else
        return (v, s, [.receive])
    | none => return (v, s, [.receive])
  | .evExecute =>
    let r := call (pollExecute v) s.store
    let s := { s with store := r.2 }
    if r.1.ucRcvAddress ≠ mbAddressBroadcast then do
      let e := call (errorFrame r.1) s.store
      let (_, s) ← F.peMBFrameSend s.modbus.ucMBAddress e.1.ucMBFrame e.1.usLength { s with store := e.2 }
      return (e.1, s, [.send])
    else
      .ok (r.1, s, [])
  | _ => .ok (v, s, [])

/-- `eMBPoll`. -/
def eMBPollIn (F : FrameFuncs) (eMBState : MBState) (v : PollVars) (s : Slave) : Except Assertion Returned :=
  if eMBState ≠ .enabled then
    .ok ⟨s, v, .eillstate, eMBState, [], none⟩
  else
    let r := xMBPortEventGet s.modbus
    let s := { s with modbus := r.2 }
    match r.1 with
    | some eEvent => do
      let (v, s, frames) ← pollSwitch F eEvent v s
      return ⟨s, v, .enoerr, eMBState, frames, some eEvent⟩
    | none => .ok ⟨s, v, .enoerr, eMBState, [], none⟩

/-- A call that uses the handle. -/
def UseCall.run (F : FrameFuncs) : UseCall → MBState → PollVars → Slave → Except Assertion Returned
  | .eMBEnable => Modbus.eMBEnable F
  | .eMBDisable => Modbus.eMBDisable F
  | .eMBPoll => eMBPollIn F
  | .eMBClose => Modbus.eMBClose

/-! ## The handle on the heap -/

/-- Why a call did not come back. -/
inductive LifeFault
  | null
  | freed
  | assertion (a : Assertion)
deriving DecidableEq, Repr

/-- A call that came back: what it returned, the frame callbacks it invoked, the event it
handled, and whether it succeeded and changed the state. -/
structure Done where
  call : LifeCall
  eStatus : MBErrorCode
  frames : List FrameCb
  event : Option MBEventType
  changed : Bool
deriving DecidableEq, Repr

/-- The instance, `modbus->handle` (an index into the heap, or NULL), and the handle blocks. -/
structure Stack where
  slave : Slave
  vars : PollVars
  handle : Option Nat
  heap : List (Option Handle)
  fault : Option LifeFault
  log : List Done

namespace Stack

/-- `eStatus` of `eMBInit`, once it has its block. -/
def initStatus (a : InitArgs) : MBErrorCode :=
  if a.ucSlaveAddress = 0 ∨ a.ucSlaveAddress < 1 ∨ a.ucSlaveAddress > 247 then .einval
  else
    match a.eMode with
    | .tcp => .einval
    | _ =>
      if a.frameInit = .enoerr then
        if a.eventInit then .enoerr else .eporterr
      else a.frameInit

/-- What `eMBInit` leaves in the instance. -/
def initModbus (F : FrameFuncs) (a : InitArgs) (m : EModbus) : EModbus :=
  let m := { m with ucPort := a.ucPort }
  if a.ucSlaveAddress = 0 ∨ a.ucSlaveAddress < 1 ∨ a.ucSlaveAddress > 247 then m
  else
    let m := { m with ucMBAddress := a.ucSlaveAddress }
    if a.eMode = .tcp ∨ a.frameInit ≠ .enoerr then m
    else
      let m := F.init m a.ucPort
      if a.eventInit then xMBPortEventInit m else m

/-- `eMBInit`. The new block is published first, and freed on an error. -/
def eMBInit (F : MBMode → FrameFuncs) (a : InitArgs) (s : Stack) : Stack :=
  if a.malloc then
    let eStatus := initStatus a
    { s with
      slave.modbus := initModbus (F a.eMode) a s.slave.modbus
      handle := some s.heap.length
      heap := s.heap ++ [if eStatus = .enoerr then some ⟨.disabled, a.eMode⟩ else none]
      log := ⟨.init a, eStatus, [], none, decide (eStatus = .enoerr)⟩ :: s.log }
  else
    { s with log := ⟨.init a, .einval, [], none, false⟩ :: s.log }

/-- A call that uses the handle. -/
def use (F : MBMode → FrameFuncs) (c : UseCall) (s : Stack) : Stack :=
  match s.handle with
  | none => { s with fault := some .null }
  | some i =>
    match s.heap.getD i none with
    | none => { s with fault := some .freed }
    | some h =>
      match c.run (F h.eMBCurrentMode) h.eMBState s.vars s.slave with
      | .error a => { s with fault := some (.assertion a) }
      | .ok o =>
        { s with
          slave := o.slave
          vars := o.vars
          heap := s.heap.set i (some { h with eMBState := o.eMBState })
          log := ⟨.use c, o.eStatus, o.frames, o.event, decide (o.eMBState ≠ h.eMBState)⟩ :: s.log }

end Stack

/-- What happens: a call, or anything that leaves the instance as `slave` between two calls. -/
inductive LifeAct
  | call (c : LifeCall)
  | between (slave : Slave)

/-- The calls on one instance, which was zero at reset. -/
def lifecycle (F : MBMode → FrameFuncs) : Lts Stack LifeAct where
  init s := s.handle = none ∧ s.heap = [] ∧ s.fault = none ∧ s.log = []
  next s a :=
    if s.fault = none then
      match a with
      | .call (.init args) => some (s.eMBInit F args)
      | .call (.use c) => some (s.use F c)
      | .between slave => some { s with slave := slave }
    else
      none

end Rs485.Modbus
