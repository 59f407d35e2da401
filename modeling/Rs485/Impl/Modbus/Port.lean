import Mathlib.Tactic.Simps.Basic
import Rs485.Impl.Modbus.Types

/-!
# The port (`mbport/`, `board.c`)

The instance `modbus[0]` (`struct eModbus`, with the state of its handle), the
peripherals the port drives, and the port's functions: the event slot, the
driver-enable line, the UART and the T3.5 timer.

Interrupts put received bytes at the front of the receive queue
(`xQueueSendToFrontFromISR`), and `xQueueReceive` takes them from the front.
The HAL leaves a timer that is already running as it is.

`posted` and `got` are no fields of the source: they record every event that
was posted and every event that `xMBPortEventGet` has returned, latest first.
-/

namespace Rs485.Modbus

open Rs485.Framework

/-- `BSP_RS485`. -/
abbrev bspRS485 : UCHAR := 1

/-- `struct eModbus`, and `eMBState` of its handle. -/
structure EModbus where
  id : Nat
  ucRTUBufAddr : BitVec 32
  ucMBAddress : UCHAR
  ucPort : UCHAR
  eMBState : MBState
  pucSndBufferCur : Ptr Obj
  usSndBufferCount : Nat
  usRcvBufferPos : Nat
  rcvState : MBRcvState
  sndState : MBSndState
  eQueuedEvent : MBEventType
  xEventInQueue : Bool
  posted : List MBEventType
  got : List MBEventType

/-- `ucRTUBuf` of an instance. -/
def EModbus.ucRTUBuf (m : EModbus) : Ptr Obj := ⟨.ucRTUBuf m.id, 0⟩

/-- The peripherals: TIM1 (`HAL_TIM_STATE_BUSY`), the driver-enable pin, the
receive queue of the RS485 UART (head first), and the bytes it has sent. -/
structure Board where
  htim1Busy : Bool
  rs485De : Bool
  rxQueue : List UCHAR
  uartTx : List UCHAR

/-- The instance, its memory, and the board. -/
structure Slave where
  modbus : EModbus
  store : Store
  board : Board

/-- The slave at reset, its static storage zero, with `ucRTUBuf` at `ucRTUBufAddr`. -/
def Slave.reset (ucRTUBufAddr : BitVec 32) : Slave where
  modbus :=
    { id := 0, ucRTUBufAddr := ucRTUBufAddr, ucMBAddress := 0, ucPort := 0
      eMBState := .notInitialized, pucSndBufferCur := ⟨.null, 0⟩, usSndBufferCount := 0
      usRcvBufferPos := 0, rcvState := .rxInit, sndState := .txIdle, eQueuedEvent := .evReady
      xEventInQueue := false, posted := [], got := [] }
  store :=
    { mem := ⟨fun _ _ => 0, []⟩, reg := ⟨fun _ _ => 0, []⟩, slaveID := ⟨fun _ => 0, 0, by decide⟩ }
  board := { htim1Busy := false, rs485De := false, rxQueue := [], uartTx := [] }

/-- The assertions of `mbrtu.c`. -/
inductive Assertion
  | receiveSndIdle | receivePos | transmitRcvIdle | t35State
deriving DecidableEq, Repr

/-! ## The event slot (`portevent.c`) -/

/-- `xMBPortEventInit`. -/
def xMBPortEventInit (m : EModbus) : EModbus := { m with xEventInQueue := false }

/-- `xMBPortEventPost`. -/
@[simps]
def xMBPortEventPost (m : EModbus) (eEvent : MBEventType) : EModbus :=
  { m with xEventInQueue := true, eQueuedEvent := eEvent, posted := eEvent :: m.posted }

/-- The end of `xMBPortEventGet`, once `eEvent` was read from the slot. -/
@[simps]
def xMBPortEventTake (m : EModbus) (eEvent : MBEventType) : EModbus :=
  { m with xEventInQueue := false, got := eEvent :: m.got }

/-- `xMBPortEventGet`. -/
def xMBPortEventGet (m : EModbus) : Option MBEventType × EModbus :=
  if m.xEventInQueue then (some m.eQueuedEvent, xMBPortEventTake m m.eQueuedEvent) else (none, m)

/-! ## The UART (`board.c`, `portserial.c`) -/

/-- `bsp_uart_rx_cb` for one byte; a full queue drops it. -/
def bspUartRxCb (b : Board) (byte : UCHAR) : Board :=
  if b.rxQueue.length < 256 then { b with rxQueue := byte :: b.rxQueue } else b

/-- `bsp_uart_available`. -/
def bspUartAvailable (b : Board) : Nat := b.rxQueue.length

/-- `bsp_uart_transmit`: the blocking `HAL_UART_Transmit` of `len` bytes of `buf`. -/
def bspUartTransmit (b : Board) (buf : List UCHAR) (len : Nat) : Board :=
  { b with uartTx := b.uartTx ++ buf.take len }

/-- `xMBPortSerialGetByte`: the head of the queue, or nothing (`FALSE`, and
`*pucByte` stays as it was) if the queue is empty or the ten ticks are over
before the queue is asked. -/
def xMBPortSerialGetByte (late : Bool) (b : Board) : Option UCHAR × Board :=
  match late, b.rxQueue with
  | false, byte :: q => (some byte, { b with rxQueue := q })
  | _, _ => (none, b)

/-- The bytes of a pointer in memory. -/
def ptrBytes (a : BitVec 32) : List UCHAR :=
  [a.setWidth 8, (a >>> 8).setWidth 8, (a >>> 16).setWidth 8, (a >>> 24).setWidth 8]

/-- `xMBPortSerialPutBytes`: it transmits one byte from the address of its own
parameter `ucByte`, which holds the pointer. -/
def xMBPortSerialPutBytes (b : Board) (ucByte : BitVec 32) (_usSize : Nat) : Board :=
  bspUartTransmit b (ptrBytes ucByte) 1

/-- `vMBPortSerialEnable`, with the callback `pxMBFrameCBTransmitterEmpty`. -/
def vMBPortSerialEnable (pxMBFrameCBTransmitterEmpty : Slave → Except Assertion Slave)
    (xRxEnable xTxEnable : Bool) (s : Slave) : Except Assertion Slave :=
  let s := if xRxEnable then { s with board.rs485De := false } else s
  if xTxEnable then pxMBFrameCBTransmitterEmpty { s with board.rs485De := true } else .ok s

/-! ## The timer (`porttimer.c`) -/

/-- `vMBPortTimersEnable`. -/
def vMBPortTimersEnable (s : Slave) : Slave :=
  if s.modbus.ucPort = bspRS485 then { s with board.htim1Busy := true } else s

/-- `vMBPortTimersDisable`. -/
def vMBPortTimersDisable (s : Slave) : Slave :=
  if s.modbus.ucPort = bspRS485 then { s with board.htim1Busy := false } else s

end Rs485.Modbus
