import Mathlib.Data.Fin.Basic
import Rs485.Framework.Lts
import Rs485.Impl.Modbus.Mb

/-!
# Several instances of the stack

`eMBPoll`, `xMBRTUReceiveFSM` and the T3.5 and transmitter callbacks, called for
the instances of a table (`modbus[N_MODBUS]`) in any order. The instances share
the memory, the board and the static variables of `eMBPoll`; all else is in
their `struct eModbus`. A byte is read by the instance it arrives for before
another arrives. An action whose assertion fails does not happen.

The register callbacks are held as fixed functions: they find the maps as they
are in `R`, whatever was written before (`fixedExecute`).

`last`, `used` and `replies` are no fields of the source: they record what an
instance received and executed, and what it sent.
-/

namespace Rs485.Modbus

open Rs485.Framework

/-- What `peMBFrameReceiveCur` produces: the source address, the PDU and its length. -/
abbrev Received := UCHAR × Ptr Obj × Nat

/-- What `case EV_EXECUTE` finds in the static variables. -/
def PollVars.received (v : PollVars) : Received := (v.ucRcvAddress, v.ucMBFrame, v.usLength)

/-! ## `eMBPoll` over the call of the handler -/

/-- `case EV_EXECUTE`, with `execute` as the part up to the reply. -/
def pollExecuteReplyWith (execute : PollVars → StoreM PollVars) (v : PollVars) (s : Slave) :
    Except Assertion (PollVars × Slave) :=
  let r := call (execute v) s.store
  let s := { s with store := r.2 }
  if r.1.ucRcvAddress ≠ mbAddressBroadcast then pollReply r.1 s else .ok (r.1, s)

/-- `eMBPoll`, with `execute` as the part of `case EV_EXECUTE` up to the reply. -/
def eMBPollWith (execute : PollVars → StoreM PollVars) (v : PollVars) (s : Slave) :
    Except Assertion (MBErrorCode × PollVars × Slave) :=
  if s.modbus.eMBState ≠ .enabled then
    .ok (.eillstate, v, s)
  else
    let r := xMBPortEventGet s.modbus
    let s := { s with modbus := r.2 }
    match r.1 with
    | some .evFrameReceived => do
      let (accepted, v, s) ← pollReceive v s
      if accepted then
        return (.enoerr, v, { s with modbus := xMBPortEventPost s.modbus .evExecute })
      else
        return (.enoerr, v, s)
    | some .evExecute => do
      let (v, s) ← pollExecuteReplyWith execute v s
      return (.enoerr, v, s)
    | _ => .ok (.enoerr, v, s)

theorem eMBPollWith_pollExecute (v : PollVars) (s : Slave) :
    eMBPollWith pollExecute v s = eMBPoll v s := rfl

/-- `pollExecute` with the register callbacks as fixed functions: it works on the store `R`
with the frame in it, and what it makes of the frame is all that remains. -/
def fixedExecute (R : Store) (v : PollVars) : StoreM PollVars :=
  modifyGet fun s =>
    let o := v.ucMBFrame.obj
    let r := call (pollExecute v)
      { R with mem.data := Function.update R.mem.data o (s.mem.data o) }
    (r.1, { s with mem.data := Function.update s.mem.data o (r.2.mem.data o) })

/-! ## The instances -/

/-- The event that `eMBPoll` acts on. -/
def EModbus.event (m : EModbus) : Option MBEventType :=
  if m.eMBState = .enabled then (xMBPortEventGet m).1 else none

/-- `EV_EXECUTE` waits for `eMBPoll`. -/
def EModbus.Pending (m : EModbus) : Prop :=
  m.xEventInQueue = true ∧ m.eQueuedEvent = .evExecute

instance (m : EModbus) : Decidable m.Pending := inferInstanceAs (Decidable (_ ∧ _))

/-- Whether `eMBRTUSend` sends after `case EV_EXECUTE` left `v`. -/
def Replies (m : EModbus) (v : PollVars) : Prop :=
  v.ucRcvAddress ≠ mbAddressBroadcast ∧ m.rcvState = .rxIdle

instance (m : EModbus) (v : PollVars) : Decidable (Replies m v) := inferInstanceAs (Decidable (_ ∧ _))

/-- An instance: what its last successful `peMBFrameReceiveCur` produced; for each
`EV_EXECUTE` step what it used and what was the last received; its replies. -/
structure Instance where
  modbus : EModbus
  last : Option Received
  used : List (Received × Option Received)
  replies : List (List UCHAR)

/-- The instance after `eMBPoll` was called in a state with the variables `v` and the
memory `store` and left `v'` and `s'`. -/
def Instance.polled (u : Instance) (v : PollVars) (store : Store) (v' : PollVars) (s' : Slave) :
    Instance :=
  match u.modbus.event with
  | some .evFrameReceived =>
    { u with
      modbus := s'.modbus
      last := (call (receiveFrame u.modbus) store).1.or u.last }
  | some .evExecute =>
    { u with
      modbus := s'.modbus
      used := u.used ++ [(v.received, u.last)]
      replies :=
        if Replies u.modbus v' then
          u.replies ++ [s'.store.mem.slice s'.modbus.pucSndBufferCur (1 + v'.usLength + 2)]
        else u.replies }
  | _ => { u with modbus := s'.modbus }

/-- The instances, and what they share. -/
structure Multi (n : Nat) where
  inst : Fin n → Instance
  store : Store
  board : Board
  vars : PollVars

/-- What can happen to an instance. -/
inductive MultiOp
  /-- `eMBPoll`. -/
  | poll
  /-- `byte` arrives, and `xMBRTUReceiveFSM` is called for it. -/
  | rx (byte : UCHAR)
  /-- T3.5 expires: `xMBRTUTimerT35Expired`. -/
  | t35
  /-- The transmitter is empty (`mb_uart_tx_task`): `xMBRTUTransmitFSM`. -/
  | txEmpty
deriving DecidableEq, Repr

/-- Something happens to the instance `i`. -/
structure MultiAct (n : Nat) where
  i : Fin n
  op : MultiOp
deriving DecidableEq

namespace Multi

variable {n : Nat}

/-- The instance `i` with the memory and the board. -/
def slave (s : Multi n) (i : Fin n) : Slave := ⟨(s.inst i).modbus, s.store, s.board⟩

/-- The state after the instance `i` became `u`. -/
def put (s : Multi n) (i : Fin n) (u : Instance) (v : PollVars) (t : Slave) : Multi n where
  inst := Function.update s.inst i u
  store := t.store
  board := t.board
  vars := v

/-- `eMBPoll` of the instance `i`. -/
def poll (R : Store) (s : Multi n) (i : Fin n) : Except Assertion (Multi n) := do
  let (_, v, t) ← eMBPollWith (fixedExecute R) s.vars (s.slave i)
  return s.put i ((s.inst i).polled s.vars s.store v t) v t

/-- A callback of the instance `i`. -/
def callback (s : Multi n) (i : Fin n) (f : Slave → Except Assertion Slave) :
    Except Assertion (Multi n) := do
  let t ← f (s.slave i)
  return s.put i { s.inst i with modbus := t.modbus } s.vars t

/-- `byte` arrives, and is read. -/
def arrive (byte : UCHAR) (s : Slave) : Except Assertion Slave :=
  xMBRTUReceiveFSM false 0 { s with board := bspUartRxCb s.board byte }

/-- What an action does. -/
def act (R : Store) (s : Multi n) (a : MultiAct n) : Except Assertion (Multi n) :=
  match a.op with
  | .poll => s.poll R a.i
  | .rx byte => s.callback a.i (arrive byte)
  | .t35 => s.callback a.i xMBRTUTimerT35Expired
  | .txEmpty => s.callback a.i xMBRTUTransmitFSM

end Multi

/-- The system of `n` enabled instances. -/
def multi (n : Nat) (R : Store) : Lts (Multi n) (MultiAct n) where
  init s := s.board.rxQueue = [] ∧ ∀ i, (s.inst i).modbus.id = i ∧
    (s.inst i).modbus.eMBState = .enabled ∧ (s.inst i).modbus.xEventInQueue = false ∧
    (s.inst i).last = none ∧ (s.inst i).used = [] ∧ (s.inst i).replies = []
  next s a := (s.act R a).toOption

end Rs485.Modbus
