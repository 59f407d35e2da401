import Rs485.Framework.Mem
import Rs485.Impl.Uart

/-!
# A call of `bsp_uart_receive` (`board.c`)

The call with the buffer of its caller, whose accesses are recorded (`Mem`), its index `i` of type
`uint32_t` and its result of type `int`. Bytes arrive, the tick advances and other tasks drain the
queue as they like in between.

`removed` is no variable of the source: it records the bytes that `xQueueReceive` took
from the head of the queue for this call.
-/

namespace Rs485.Uart

open Rs485.Framework

/-- Where the call is. -/
inductive ReceivePc
  /-- Before the test of `while`. -/
  | test
  /-- In `xQueueReceive`. -/
  | queueReceive
  /-- The call has returned. -/
  | returned (result : Int)
deriving DecidableEq, Repr

/-- The queue, the tick, and the call: its arguments, the buffer with them, and its variables. -/
structure Receiving where
  rxQueue : List Byte
  tick : BitVec 32
  buff : Mem Unit Byte
  len : BitVec 32
  timeout : BitVec 32
  time : BitVec 32
  i : BitVec 32
  pc : ReceivePc
  removed : List Byte

/-- The call begins. -/
def receivingInit (rxQueue : List Byte) (tick : BitVec 32) (buff : Mem Unit Byte)
    (len timeout : BitVec 32) : Receiving :=
  { rxQueue := rxQueue, tick := tick, buff := buff, len := len, timeout := timeout, time := tick,
    i := 0, pc := .test, removed := [] }

/-- `return (int)i`. -/
def Receiving.ret (s : Receiving) : Receiving := { s with pc := .returned s.i.toInt }

/-- The byte `b` from `xQueueReceive` is in `buff[i]`, and `i++`. -/
def Receiving.put (s : Receiving) (b : Byte) (q : List Byte) : Receiving :=
  { s with
    rxQueue := q
    buff := s.buff.store ⟨(), s.i.toNat⟩ b
    i := s.i + 1
    pc := .test
    removed := s.removed ++ [b] }

/-- The call runs on. -/
def receivingStep (s : Receiving) : Option Receiving :=
  match s.pc with
  | .test => some (if s.tick - s.time < s.timeout then { s with pc := .queueReceive } else s.ret)
  | .queueReceive =>
    match xQueueReceive s.rxQueue with
    | some (b, q) =>
      let s := s.put b q
      some (if s.len ≤ s.i then s.ret else s)
    | none => some { s with pc := .test }
  | .returned _ => none

/-- What happens on the port, or another task takes `n` bytes. -/
inductive ReceivingAct
  | port (a : UartAct)
  | drain (n : Nat)
deriving DecidableEq, Repr

/-- One call of `bsp_uart_receive`. -/
def receiving : Lts Receiving ReceivingAct where
  init s := ∃ rxQueue tick buff len timeout, buff.log = [] ∧ s = receivingInit rxQueue tick buff len timeout
  next s
    | .port (.rxCb buf) => some { s with rxQueue := bspUartRxCb s.rxQueue buf }
    | .port .tick => some { s with tick := s.tick + 1 }
    | .port (.receive _ _) => none
    | .port .task => receivingStep s
    | .drain n => some { s with rxQueue := s.rxQueue.drop n }

end Rs485.Uart
