import Rs485.Framework.Lts

/-!
# UART reception (`board.c`)

A port's receive queue of 256 bytes (head first), `bsp_uart_rx_cb`, which the
interrupt calls with the bytes received, and `bsp_uart_receive`, whose loop the
interrupt and the tick come in between: the system `uart` runs it a step at a
time.

`delivered` and `returned` are no variables of the source: they record all
bytes the interrupt delivered and all bytes that calls have returned.
-/

namespace Rs485.Uart

open Rs485.Framework

abbrev Byte := BitVec 8

/-- The slots of the queue (`xQueueCreate(256, sizeof(uint8_t))`). -/
abbrev rxQueueLength : Nat := 256

/-- `xQueueSendToFrontFromISR`; a full queue drops the byte. -/
def xQueueSendToFrontFromISR (q : List Byte) (b : Byte) : List Byte :=
  if q.length < rxQueueLength then b :: q else q

/-- `xQueueReceive`: the head of the queue. -/
def xQueueReceive : List Byte → Option (Byte × List Byte)
  | [] => none
  | b :: q => some (b, q)

/-- `bsp_uart_rx_cb`. -/
def bspUartRxCb (q buf : List Byte) : List Byte := buf.foldl xQueueSendToFrontFromISR q

/-- `bsp_uart_available`. -/
def bspUartAvailable (q : List Byte) : Nat := q.length

/-- A call of `bsp_uart_receive`: its variables (`buff` holds the `i` bytes stored), and
whether it is in `xQueueReceive`. -/
structure Receive where
  len : BitVec 32
  timeout : BitVec 32
  time : BitVec 32
  buff : List Byte
  inQueueReceive : Bool
deriving DecidableEq, Repr

/-- A port: its queue, the tick, and the call that is in progress. -/
structure Port where
  rxQueue : List Byte
  tick : BitVec 32
  receive : Option Receive
  delivered : List Byte
  returned : List Byte
deriving DecidableEq, Repr

/-- `bsp_uart_receive` begins. -/
def bspUartReceive (s : Port) (len timeout : BitVec 32) : Port :=
  { s with receive := some ⟨len, timeout, s.tick, [], false⟩ }

/-- The call `c` returns the bytes in `buff`. -/
def Port.ret (s : Port) (c : Receive) : Port × Option (List Byte) :=
  ({ s with receive := none, returned := s.returned ++ c.buff }, some c.buff)

/-- The call goes on as `c`. -/
def Port.goOn (s : Port) (c : Receive) : Port × Option (List Byte) :=
  ({ s with receive := some c }, none)

/-- The call `c` runs on: the test of `while (bsp_get_tick() - time < timeout)`, or the end of
`xQueueReceive` and what follows it. `xQueueReceive` waits for a tick, so that both
bytes and time can come between the two. -/
def bspUartReceiveStep (s : Port) (c : Receive) : Port × Option (List Byte) :=
  if c.inQueueReceive then
    match xQueueReceive s.rxQueue with
    | some (b, q) =>
      let c := { c with buff := c.buff ++ [b], inQueueReceive := false }
      let s := { s with rxQueue := q }
      if c.len.toNat ≤ c.buff.length then s.ret c else s.goOn c
    | none => s.goOn { c with inQueueReceive := false }
  else if s.tick - c.time < c.timeout then
    s.goOn { c with inQueueReceive := true }
  else
    s.ret c

/-- What happens: an interrupt delivers `buf`, the tick advances, a task calls
`bsp_uart_receive`, or the call in progress runs on. -/
inductive UartAct
  | rxCb (buf : List Byte)
  | tick
  | receive (len timeout : BitVec 32)
  | task
deriving DecidableEq, Repr

/-- A port with an empty queue. -/
def Port.init (tick : BitVec 32) : Port := ⟨[], tick, none, [], []⟩

/-- One port and the task that reads it. -/
def uart : Lts Port UartAct where
  init s := ∃ tick, s = .init tick
  next s
    | .rxCb buf =>
      some { s with rxQueue := bspUartRxCb s.rxQueue buf, delivered := s.delivered ++ buf }
    | .tick => some { s with tick := s.tick + 1 }
    | .receive len timeout =>
      if s.receive = none then some (bspUartReceive s len timeout) else none
    | .task => s.receive.map fun c => (bspUartReceiveStep s c).1

end Rs485.Uart
