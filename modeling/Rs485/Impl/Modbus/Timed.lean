import Rs485.Impl.Modbus.Multi

/-!
# The frame timer in time

The slave with the counter of TIM1, in ticks. The timer counts while it runs; after
`period` ticks the counter starts again at zero and T3.5 expires. To start a timer that
is running changes nothing (`HAL_TIM_Base_Start_IT` returns `HAL_ERROR`), and to stop
it leaves the counter where it is.

`now` and `expiries` are no fields of the source: the ticks so far, and those at which
`xMBRTUTimerT35Expired` ran, latest first.
-/

namespace Rs485.Modbus

open Rs485.Framework

/-- The slave and the counter of its timer. -/
structure Timed where
  slave : Slave
  cnt : Nat
  now : Nat
  expiries : List Nat

namespace Timed

variable (period : Nat)

/-- One tick. -/
def tick (s : Timed) : Except Assertion Timed :=
  let s := { s with now := s.now + 1 }
  if s.slave.board.htim1Busy then
    if s.cnt + 1 < period then
      .ok { s with cnt := s.cnt + 1 }
    else do
      let slave ← xMBRTUTimerT35Expired s.slave
      return { s with slave := slave, cnt := 0, expiries := s.now :: s.expiries }
  else
    .ok s

/-- `n` ticks. -/
def ticks : Nat → Timed → Except Assertion Timed
  | 0, s => .ok s
  | n + 1, s => do
    let s ← tick period s
    ticks n s

/-- A byte arrives and is processed. -/
def byte (b : UCHAR) (s : Timed) : Except Assertion Timed := do
  let slave ← Multi.arrive b s.slave
  return { s with slave := slave }

/-- Bytes, each with the ticks since the byte before it. -/
def bytes : List (Nat × UCHAR) → Timed → Except Assertion Timed
  | [], s => .ok s
  | (gap, b) :: bs, s => do
    let s ← ticks period gap s
    let s ← byte b s
    bytes bs s

/-- The byte `b`, then `bs`, and then all ticks but one of a period. -/
def frame (b : UCHAR) (bs : List (Nat × UCHAR)) (s : Timed) : Except Assertion Timed := do
  let s ← byte b s
  let s ← bytes period bs s
  ticks period (period - 1) s

end Timed

end Rs485.Modbus
