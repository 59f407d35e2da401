import Rs485.Framework.Lts
import Rs485.Impl.Modbus.Mb

/-!
# `modbus_task` and its interrupts (`modbus_service.c`)

The task loops through `eMBPoll` and the drain of the receive queue. A step of
the system is the reception of a byte, a T3.5 interrupt, or the part of the
task up to the next point an interrupt can make a difference at: `TaskPc` names
these points. The task holds nothing in registers across them but what its
program counter carries. A failed assertion stops everything.

`hist` records, latest first, what the receiver completed, what `eMBPoll`
validated and executed, and every call of `eMBPoll`.
-/

namespace Rs485.Modbus

open Rs485.Framework

/-- Where `modbus_task` is. -/
inductive TaskPc
  /-- Before `eMBPoll`. -/
  | poll
  /-- In `xMBPortEventGet`: the event is read, `xEventInQueue` not yet cleared. -/
  | got (eEvent : MBEventType)
  /-- Before `switch ( eEvent )`. -/
  | switch (eEvent : MBEventType)
  /-- Before `xMBPortEventPost( EV_EXECUTE )`. -/
  | post
  /-- The handler is done, the reply not yet sent. -/
  | reply
  /-- Before `len = bsp_uart_available( BSP_RS485 )`. -/
  | drain
  /-- Before the call of `xMBRTUReceiveFSM` for the first of `n` bytes. -/
  | feed (n : Nat)
  /-- In `xMBRTUReceiveFSM`: `ucByte` is read and the case for `rcvState` selected. -/
  | fsm (n : Nat) (rcvState : MBRcvState) (ucByte : UCHAR)
  /-- In `xMBRTUReceiveFSM`: before `vMBPortTimersEnable`. -/
  | timer (n : Nat)
deriving DecidableEq, Repr

/-- What is recorded of a run. -/
inductive Obs
  /-- `eMBPoll` was called. -/
  | polled
  /-- T3.5 expired in `STATE_RX_RCV`, with `frame` in the buffer. -/
  | completed (frame : List UCHAR)
  /-- `eMBPoll` found `frame` valid and for this slave. -/
  | validated (frame : List UCHAR)
  /-- `eMBPoll` took `EV_EXECUTE`, with `pdu` the `usLength` bytes at `ucMBFrame`. -/
  | executed (pdu : List UCHAR)
deriving DecidableEq, Repr

/-- The state of the service. -/
structure Sys where
  slave : Slave
  vars : PollVars
  pc : TaskPc
  fault : Option Assertion
  hist : List Obs

/-- What happens. -/
inductive Act
  /-- The UART receives `byte`. -/
  | rx (byte : UCHAR)
  /-- The T3.5 interrupt. -/
  | t35
  /-- The task runs on. If it reads a byte, `late` and `junk` are as in `rxByte`. -/
  | task (late : Bool) (junk : UCHAR)
deriving DecidableEq, Repr

namespace Sys

/-- The bytes received so far of the frame in the buffer. -/
def frame (s : Sys) : List UCHAR :=
  s.slave.store.mem.slice s.slave.modbus.ucRTUBuf s.slave.modbus.usRcvBufferPos

/-- The `usLength` bytes at `ucMBFrame`. -/
def pdu (s : Sys) : List UCHAR := s.slave.store.mem.slice s.vars.ucMBFrame s.vars.usLength

/-- The system after an assertion failed. -/
@[simps]
def fail (s : Sys) (a : Assertion) : Sys := { s with fault := some a }

/-- The T3.5 interrupt: `HAL_TIM_PeriodElapsedCallback`, down to
`xMBRTUTimerT35Expired`. -/
def t35 (s : Sys) : Sys :=
  match xMBRTUTimerT35Expired s.slave with
  | .ok slave =>
    { s with
      slave := slave
      hist := if s.slave.modbus.rcvState = .rxRcv then .completed s.frame :: s.hist else s.hist }
  | .error a => s.fail a

/-- The part of `modbus_task` from where it is. -/
def task (s : Sys) (late : Bool) (junk : UCHAR) : Sys :=
  match s.pc with
  | .poll =>
    { s with
      pc :=
        if s.slave.modbus.eMBState = .enabled ∧ s.slave.modbus.xEventInQueue then
          .got s.slave.modbus.eQueuedEvent
        else .drain
      hist := .polled :: s.hist }
  | .got eEvent =>
    { s with slave.modbus := xMBPortEventTake s.slave.modbus eEvent, pc := .switch eEvent }
  | .switch .evFrameReceived =>
    match pollReceive s.vars s.slave with
    | .ok (true, v, slave) =>
      { s with slave := slave, vars := v, pc := .post, hist := .validated s.frame :: s.hist }
    | .ok (false, v, slave) => { s with slave := slave, vars := v, pc := .drain }
    | .error a => s.fail a
  | .switch .evExecute =>
    let r := call (pollExecute s.vars) s.slave.store
    { s with
      slave.store := r.2
      vars := r.1
      pc := if r.1.ucRcvAddress ≠ mbAddressBroadcast then .reply else .drain
      hist := .executed s.pdu :: s.hist }
  | .switch _ => { s with pc := .drain }
  | .post => { s with slave.modbus := xMBPortEventPost s.slave.modbus .evExecute, pc := .drain }
  | .reply =>
    match pollReply s.vars s.slave with
    | .ok (v, slave) => { s with slave := slave, vars := v, pc := .drain }
    | .error a => s.fail a
  | .drain => { s with pc := .feed (bspUartAvailable s.slave.board) }
  | .feed 0 => { s with pc := .poll }
  | .feed (n + 1) =>
    match rxByte late junk s.slave with
    | .ok (ucByte, slave) => { s with slave := slave, pc := .fsm n slave.modbus.rcvState ucByte }
    | .error a => s.fail a
  | .fsm n rcvState ucByte => { s with slave := rxCase rcvState ucByte s.slave, pc := .timer n }
  | .timer n => { s with slave := vMBPortTimersEnable s.slave, pc := .feed n }

/-- What an action makes of the state. The timer interrupts only while it runs. -/
def next (s : Sys) (a : Act) : Option Sys :=
  if s.fault = none then
    match a with
    | .rx byte => some { s with slave.board := bspUartRxCb s.slave.board byte }
    | .t35 => if s.slave.board.htim1Busy then some s.t35 else none
    | .task late junk => some (s.task late junk)
  else
    none

/-- The service after `modbus_service_init`: `eMBInit` in RTU mode on
`BSP_RS485`, `eMBEnable`, and the start of the task; `s` is what was in memory
and on the board before. -/
def boot (s : Slave) (v : PollVars) (ucSlaveAddress : UCHAR) : Except Assertion Sys := do
  let m := xMBPortEventInit (eMBRTUInit { s.modbus with ucMBAddress := ucSlaveAddress } bspRS485)
  let slave ← eMBRTUStart { s with modbus := { m with posted := [], got := [] } }
  return { slave := { slave with modbus.eMBState := .enabled }, vars := v, pc := .poll,
           fault := none, hist := [] }

end Sys

/-- The service as a transition system. `eMBInit` refuses other slave addresses. -/
def service : Lts Sys Act where
  init s := ∃ slave v ucSlaveAddress, 1 ≤ ucSlaveAddress.toNat ∧ ucSlaveAddress.toNat ≤ 247 ∧
    Sys.boot slave v ucSlaveAddress = .ok s
  next := Sys.next

end Rs485.Modbus
