import Rs485.Impl.Modbus.Service
import Rs485.Impl.UsbRs485

/-!
# The handover of the RS485 queue

`modbus_task` with its interrupts (`Sys`) and the bridge (`Bridge`), on one receive
queue. The Modbus task runs while it is not suspended, and is suspended wherever it
is, inside the loop of `mb_uart_rx_task` too. `bridge_task` takes the bytes out of the
queue in its transfers (`bsp_uart_receive`); what it sends the other way is left out.

`got` and `calls` are no fields of the source: they record, for every call of
`xMBRTUReceiveFSM` that reads, what `xMBPortSerialGetByte` returned and what the
case for the state did.
-/

namespace Rs485.Modbus

open Rs485.Framework Rs485.UsbRs485

/-- A call of `xMBRTUReceiveFSM`: the byte read (none for `FALSE`), the bytes it appended to
`ucRTUBuf`, and whether it changed the state of the receiver. -/
structure RxCall where
  taken : Option UCHAR
  appended : List UCHAR
  changed : Bool
deriving DecidableEq, Repr

/-- The byte that was stored between `s` and `t`, if one was: it is the last before the position. -/
def stored (s t : Slave) : List UCHAR :=
  if t.store.mem.log = s.store.mem.log then []
  else [t.store.mem.data t.modbus.ucRTUBuf.obj (t.modbus.ucRTUBuf.off + (t.modbus.usRcvBufferPos - 1))]

/-- The Modbus task, and the bridge with the number of bytes that it is still to receive. -/
structure Handover where
  sys : Sys
  bridge : Bridge
  rxAvail : Option Nat
  got : Option UCHAR
  calls : List RxCall

/-- What happens: a byte is received, T3.5 expires, a task runs on, or one of the two functions
is called. -/
inductive HandoverAct
  | rx (byte : UCHAR)
  | t35
  | modbus (late : Bool) (junk : UCHAR)
  | enable
  | disable
  | bridge (tudMounted late : Bool)
deriving DecidableEq, Repr

namespace Handover

/-- An interrupt of the Modbus side. -/
def interrupt (s : Handover) (a : Act) : Option Handover :=
  (s.sys.next a).map fun t => { s with sys := t }

/-- The state once the Modbus task has come to `t`, with what is recorded of it: what it has read,
or what the case for the state did. -/
def record (s : Handover) (late : Bool) (t : Sys) : Handover :=
  match s.sys.pc with
  | .feed _ => { s with sys := t, got := (xMBPortSerialGetByte late s.sys.slave.board).1 }
  | .fsm _ _ _ =>
    { s with
      sys := t
      calls := s.calls ++
        [⟨s.got, stored s.sys.slave t.slave,
          decide (t.slave.modbus.rcvState ≠ s.sys.slave.modbus.rcvState)⟩] }
  | _ => { s with sys := t }

/-- The Modbus task runs on, if it is not suspended. -/
def modbus (s : Handover) (late : Bool) (junk : UCHAR) : Option Handover :=
  if s.bridge.usb.suspended then none else (s.sys.next (.task late junk)).map (s.record late)

/-- `bridge_task` goes on behind its transfers. -/
def leave (s : Handover) : Handover := { s with bridge.pc := .delay, rxAvail := none }

/-- `bridge_task` runs on. In its transfers it asks how many bytes there are, and then takes as
many out of the queue, until the ten ticks are over. -/
def bridgeTask (s : Handover) (tudMounted late : Bool) : Option Handover :=
  match s.bridge.pc with
  | .transfer =>
    match s.rxAvail with
    | none => some { s with rxAvail := some (min (bspUartAvailable s.sys.slave.board) 256) }
    | some 0 => some s.leave
    | some (n + 1) =>
      if late then some s.leave
      else
        match s.sys.slave.board.rxQueue with
        | [] => some s
        | _ :: q => some { s with sys.slave.board.rxQueue := q, rxAvail := some n }
  | _ => (UsbRs485.bridgeTask tudMounted s.bridge).map fun b => { s with bridge := b }

/-- What an action makes of the state. A failed assertion stops everything. -/
def next (s : Handover) (a : HandoverAct) : Option Handover :=
  if s.sys.fault = none then
    match a with
    | .rx byte => s.interrupt (.rx byte)
    | .t35 => s.interrupt .t35
    | .modbus late junk => s.modbus late junk
    | .enable => some { s with bridge.usb := usbRs485Enable s.bridge.usb }
    | .disable => some { s with bridge.usb := usbRs485Disable s.bridge.usb }
    | .bridge tudMounted late => s.bridgeTask tudMounted late
  else
    none

end Handover

/-- The service and the bridge as a transition system. -/
def handover : Lts Handover HandoverAct where
  init s := service.init s.sys ∧ s.bridge = ⟨.init, .mounted⟩ ∧ s.rxAvail = none ∧ s.calls = []
  next := Handover.next

end Rs485.Modbus
