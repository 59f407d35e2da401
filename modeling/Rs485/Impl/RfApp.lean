import Rs485.Impl.Zigbee.Poll

/-!
# The RF application (`rf_app.c`)

`rf_app_poll` is called again and again, and polls the module if the tick is another than at its
last poll. Between two calls the rest of the application does what it likes with the module.

`time` is the number of ticks since the reset, of which `HAL_GetTick` has the low 32 bits;
`start`, `lastPoll` and `polls` are no variables of the source either: they record when
`rf_app_init` read the tick, when `zigbee_poll` was last called (or `start`), and its
calls, latest first.
-/

namespace Rs485.Rf

open Rs485.Framework Rs485.Zigbee

/-- A call of `zigbee_poll`: the ticks since the one before it (or since `rf_app_init`), what it is
called with, and what the driver has. -/
structure PollCall where
  elapsed : Nat
  zigbee : ZigbeeMesh
  timestamp : BitVec 32
  reply : Reply

/-- The variables of `rf_app.c`, without the indicator. -/
structure RfApp where
  time : Nat
  zigbee : ZigbeeMesh
  rfTimeStamp : BitVec 32
  start : Nat
  lastPoll : Nat
  polls : List PollCall

/-- `HAL_GetTick`. -/
def halGetTick (time : Nat) : BitVec 32 := BitVec.ofNat 32 time

/-- `rf_app_init`, which reads the tick at `time`, with the addresses of its callbacks. -/
def rfAppInit (time : Nat) (zigbeeConnectCb zigbeeReadCb zigbeeResetCb : Pointer) (zigbee : ZigbeeMesh) :
    RfApp :=
  let zigbee := zigbeeInit zigbee
  let zigbee := (zigbeeConnect zigbeeConnectCb 0 zigbee).2
  let zigbee := (zigbeeReadModule zigbeeReadCb 0 zigbee).2
  let zigbee := (zigbeeResetModule zigbeeResetCb 0 zigbee).2
  { time := time, zigbee := zigbee, rfTimeStamp := halGetTick time, start := time, lastPoll := time,
    polls := [] }

/-- A call of `zigbee_poll`. -/
def callZigbeePoll (timestamp : BitVec 32) (reply : Reply) (s : RfApp) : RfApp :=
  { s with
    zigbee := (zigbeePoll timestamp reply s.zigbee).2
    lastPoll := s.time
    polls := ⟨s.time - s.lastPoll, s.zigbee, timestamp, reply⟩ :: s.polls }

/-- `HAL_GetTick() - rf_time_stamp >= 1`. -/
def rfDue (s : RfApp) : Bool := 1 ≤ halGetTick s.time - s.rfTimeStamp

/-- `rf_app_poll`; `during` ticks pass from its first to its second `HAL_GetTick`. -/
def rfAppPoll (during : Nat) (reply : Reply) (s : RfApp) : RfApp :=
  if rfDue s then
    let s := callZigbeePoll 1 reply s
    let s := { s with time := s.time + during }
    { s with rfTimeStamp := halGetTick s.time }
  else
    s

/-- What happens: `rf_app_poll` is called, `gap` ticks behind its last call, or the module is used
otherwise. -/
inductive RfAct
  | poll (gap : BitVec 32) (during : Nat) (reply : Reply)
  | other (zigbee : ZigbeeMesh)

/-- The time of the next call. -/
def RfApp.wait (s : RfApp) (gap : BitVec 32) : RfApp := { s with time := s.time + gap.toNat }

/-- The application from `rf_app_init` on. -/
def rfApp : Lts RfApp RfAct where
  init s := ∃ time zigbeeConnectCb zigbeeReadCb zigbeeResetCb zigbee,
    s = rfAppInit time zigbeeConnectCb zigbeeReadCb zigbeeResetCb zigbee
  next s
    | .poll gap during reply => some (rfAppPoll during reply (s.wait gap))
    | .other zigbee => some { s with zigbee := zigbee }

end Rs485.Rf
