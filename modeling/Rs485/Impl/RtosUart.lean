import Rs485.Impl.RtosQueue
import Rs485.Impl.Uart

/-!
# UART reception on a queue of the kernel (`board.c`, `queue.c`)

The port of `Impl/Uart` with `rx_queue` as `queue.c` has it, a ring of 256 items of one octet.
-/

namespace Rs485.RtosQueue

open Rs485.Framework

/-- A port, its queue, the tick, and the call of `bsp_uart_receive` that is in progress. -/
structure RingPort where
  rxQueue : Queue
  tick : BitVec 32
  receive : Option Uart.Receive
  delivered : List Byte
  returned : List Byte

/-- `bsp_uart_rx_cb`. -/
def ringRxCb (q : Queue) (buf : List Byte) : Queue :=
  buf.foldl (fun q b => (xQueueGenericSend q (fun _ => b) .sendToFront).2) q

/-- The call `c` runs on. -/
def ringReceiveStep (s : RingPort) (c : Uart.Receive) : RingPort :=
  if c.inQueueReceive then
    let r := xQueueReceive s.rxQueue
    match r.1 with
    | some item =>
      let c := { c with buff := c.buff ++ item, inQueueReceive := false }
      let s := { s with rxQueue := r.2 }
      if c.len.toNat ≤ c.buff.length then { s with receive := none, returned := s.returned ++ c.buff }
      else { s with receive := some c }
    | none => { s with receive := some { c with inQueueReceive := false } }
  else if s.tick - c.time < c.timeout then { s with receive := some { c with inQueueReceive := true } }
  else { s with receive := none, returned := s.returned ++ c.buff }

/-- The port after `bsp_uart_init`, whose `xQueueCreate` gets the storage `m`. -/
def RingPort.Init (s : RingPort) : Prop :=
  ∃ sizeofQueue m q tick, xQueueGenericCreate sizeofQueue (some m) 256 1 = some q ∧ m.log = [] ∧
    s = ⟨q, tick, none, [], []⟩

/-- One port and the task that reads it. -/
def ringUart : Lts RingPort Uart.UartAct where
  init := RingPort.Init
  next s
    | .rxCb buf => some { s with rxQueue := ringRxCb s.rxQueue buf, delivered := s.delivered ++ buf }
    | .tick => some { s with tick := s.tick + 1 }
    | .receive len timeout =>
      if s.receive = none then some { s with receive := some ⟨len, timeout, s.tick, [], false⟩ } else none
    | .task => s.receive.map (ringReceiveStep s)

end Rs485.RtosQueue
