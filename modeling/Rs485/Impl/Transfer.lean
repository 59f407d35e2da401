import Rs485.Impl.Uart

/-!
# The bridge from RS485 to USB (`usb_rs485.c`, `bsp_usb.c`)

The part of the loop of `bridge_task` that takes bytes out of the receive queue
of the RS485 port and offers them to the transmit FIFO of the CDC interface. How
much room the FIFO has, and whether the interface is connected and ready, is
found out when the bytes are offered.

`accepted` is no variable of the source: it records all bytes the FIFO took.
-/

namespace Rs485.Transfer

open Rs485.Framework Rs485.Uart

/-- `BRIDGE_BUF_SIZE`. -/
abbrev bridgeBufSize : Nat := 256

/-- Where `bridge_task` is. -/
inductive Pc
  /-- Before `bsp_uart_available`. -/
  | available
  /-- In `bsp_uart_receive`. -/
  | receive
  /-- With `len` bytes in `buf`, before `bsp_usb_connected`. -/
  | transmit (buf : List Byte)
deriving DecidableEq, Repr

/-- The RS485 port, the task, and what the FIFO has accepted. -/
structure Bridge where
  port : Port
  pc : Pc
  accepted : List Byte
deriving DecidableEq, Repr

/-- `tud_cdc_n_write`, with room for `free` bytes: what it accepts. -/
def tudCdcNWrite (free : Nat) (buf : List Byte) : List Byte := buf.take free

/-- `bsp_usb_transmit`: the bytes written. -/
def bspUsbTransmit (tudCdcNReady : Bool) (free : Nat) (buf : List Byte) : List Byte :=
  if tudCdcNReady then tudCdcNWrite free buf else []

/-- `rx_avail`, cut to the size of the buffer. -/
def rxAvail (q : List Byte) : Nat := min (bspUartAvailable q) bridgeBufSize

/-- What happens: bytes arrive, the tick advances, the task runs on in the first two places,
or it offers its bytes. -/
inductive BridgeAct
  | rxCb (buf : List Byte)
  | tick
  | task
  | transmit (bspUsbConnected tudCdcNReady : Bool) (free : Nat)
deriving DecidableEq, Repr

/-- `bsp_uart_receive` runs on; once it has returned, the task goes on with what it got. -/
def receiveStep (s : Bridge) (c : Receive) : Bridge :=
  let r := bspUartReceiveStep s.port c
  match r.2 with
  | some buf => { s with port := r.1, pc := if buf.length > 0 then .transmit buf else .available }
  | none => { s with port := r.1 }

/-- The transfers of `bridge_task` while the bridge is enabled. -/
def transfer : Lts Bridge BridgeAct where
  init s := ∃ tick, s = ⟨.init tick, .available, []⟩
  next s
    | .rxCb buf => (uart.next s.port (.rxCb buf)).map fun port => { s with port := port }
    | .tick => (uart.next s.port .tick).map fun port => { s with port := port }
    | .task =>
      match s.pc with
      | .available =>
        if rxAvail s.port.rxQueue > 0 then
          some { s with
            port := bspUartReceive s.port (BitVec.ofNat 32 (rxAvail s.port.rxQueue)) 10
            pc := .receive }
        else some s
      | .receive => s.port.receive.map (receiveStep s)
      | .transmit _ => none
    | .transmit bspUsbConnected tudCdcNReady free =>
      match s.pc with
      | .transmit buf =>
        some { s with
          pc := .available
          accepted := s.accepted ++
            if bspUsbConnected then bspUsbTransmit tudCdcNReady free buf else [] }
      | _ => none

end Rs485.Transfer
