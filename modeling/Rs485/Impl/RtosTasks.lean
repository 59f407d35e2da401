import Mathlib.Logic.Function.Basic
import Rs485.Framework.Lts
import Rs485.Impl.RtosQueue

/-!
# Tasks that wait at a queue (`queue.c`)

A call of `xQueueGenericSend`, `xQueueReceive` or `xQueuePeek` attempts its operation in a
critical section and, as long as it is in vain, suspends the scheduler, locks the queue
and puts its task on an event list, unless the queue is ready by then. Interrupts come in
between any two steps; while the queue is locked they leave the event lists alone and
count what they did, and `prvUnlockQueue` makes up for it. A task runs only while it is on
no event list and no other task has suspended the scheduler. Whether a timeout has expired
is left open, so that the clock may do anything.

`queueOVERWRITE`, mutexes, queue sets and tasks that are created or deleted are left out.
-/

namespace Rs485.RtosQueue

open Rs485.Framework

/-- `queueUNLOCKED`. -/
abbrev queueUnlocked : Int := -1

/-- `queueLOCKED_UNMODIFIED`. -/
abbrev queueLockedUnmodified : Int := 0

/-- `queueINT8_MAX`. -/
abbrev queueInt8Max : Int := 127

/-- A call that may wait. -/
inductive Call
  | send (item : Nat → Byte) (front : Bool)
  | receive
  | peek

/-- Whether the call waits for room, and not for an item. -/
def Call.sends : Call → Bool
  | .send _ _ => true
  | _ => false

/-- Where a call is. `again` says whether it goes on with another attempt. -/
inductive Pc
  /-- The critical section at the head of the loop. -/
  | attempt
  /-- `vTaskSuspendAll` and `prvLockQueue`. -/
  | lock
  /-- `xTaskCheckForTimeOut`, and `prvIsQueueFull` or `prvIsQueueEmpty`. -/
  | check
  /-- `vTaskPlaceOnEventList`. -/
  | place
  /-- The first critical section of `prvUnlockQueue`. -/
  | unlockTx (again : Bool)
  /-- The second one. -/
  | unlockRx (again : Bool)
  /-- `xTaskResumeAll`. -/
  | resume (again : Bool)
  /-- The last `prvIsQueueEmpty` after a timeout. -/
  | timedOut
deriving DecidableEq

/-- A task in a call; `waits` is `xTicksToWait != 0`. -/
structure Task where
  call : Call
  waits : Bool
  pc : Pc

/-- A queue, its event lists, and the `n` tasks of the system. -/
structure Kernel (n : Nat) where
  queue : Queue
  cTxLock : Int
  cRxLock : Int
  xTasksWaitingToSend : List (Fin n)
  xTasksWaitingToReceive : List (Fin n)
  tasks : Fin n → Option Task
  suspendedBy : Option (Fin n)

variable {n : Nat}

/-- `vListInsert`, behind the tasks of the same priority. -/
def vListInsert (prio : Fin n → Nat) (t : Fin n) (l : List (Fin n)) : List (Fin n) :=
  l.takeWhile (fun u => prio t ≤ prio u) ++ t :: l.dropWhile (fun u => prio t ≤ prio u)

/-- A task is removed from an event list that is not empty. -/
def wake (l : List (Fin n)) : List (Fin n) := l.tail

/-- A loop of `prvUnlockQueue`, which ends when the list is empty. -/
def unlockLoop : Nat → List (Fin n) → List (Fin n)
  | 0, l => l
  | lock + 1, l => if l = [] then l else unlockLoop lock (wake l)

/-- `prvIncrementQueueTxLock` and `prvIncrementQueueRxLock`; nothing is a failed assertion. -/
def prvIncrementQueueLock (n : Nat) (lock : Int) : Option Int :=
  if lock < n then if lock ≠ queueInt8Max then some (lock + 1) else none else some lock

/-- `xCopyPosition` of a send. -/
def position (front : Bool) : Position := if front then .sendToFront else .sendToBack

namespace Kernel

variable (s : Kernel n)

/-- The task `t` is in the call `c`, or in none. -/
def setTask (t : Fin n) (c : Option Task) : Kernel n := { s with tasks := Function.update s.tasks t c }

/-- The critical section at the head of the loop. -/
def attempt (t : Fin n) (c : Task) : Kernel n :=
  let blocked := s.setTask t (if c.waits then some { c with pc := .lock } else none)
  match c.call with
  | .send item front =>
    let r := xQueueGenericSend s.queue item (position front)
    if r.1 then
      { s.setTask t none with queue := r.2, xTasksWaitingToReceive := wake s.xTasksWaitingToReceive }
    else blocked
  | .receive =>
    let r := RtosQueue.xQueueReceive s.queue
    if r.1.isSome then
      { s.setTask t none with queue := r.2, xTasksWaitingToSend := wake s.xTasksWaitingToSend }
    else blocked
  | .peek =>
    let r := RtosQueue.xQueuePeek s.queue
    if r.1.isSome then
      { s.setTask t none with queue := r.2, xTasksWaitingToReceive := wake s.xTasksWaitingToReceive }
    else blocked

/-- Whether what the call waits for is missing. -/
def missing (c : Call) : Bool :=
  if c.sends then s.queue.uxMessagesWaiting = s.queue.uxLength else s.queue.uxMessagesWaiting = 0

/-- The call `c` of the task `t` runs on. -/
def run (prio : Fin n → Nat) (t : Fin n) (c : Task) (expired : Bool) : Kernel n :=
  match c.pc with
  | .attempt => s.attempt t c
  | .lock =>
    { s.setTask t (some { c with pc := .check }) with
      suspendedBy := some t
      cTxLock := if s.cTxLock = queueUnlocked then queueLockedUnmodified else s.cTxLock
      cRxLock := if s.cRxLock = queueUnlocked then queueLockedUnmodified else s.cRxLock }
  | .check =>
    if expired then s.setTask t (some { c with pc := .unlockTx false, waits := false })
    else if s.missing c.call then s.setTask t (some { c with pc := .place })
    else s.setTask t (some { c with pc := .unlockTx true })
  | .place =>
    let s := s.setTask t (some { c with pc := .unlockTx true })
    if c.call.sends then { s with xTasksWaitingToSend := vListInsert prio t s.xTasksWaitingToSend }
    else { s with xTasksWaitingToReceive := vListInsert prio t s.xTasksWaitingToReceive }
  | .unlockTx again =>
    { s.setTask t (some { c with pc := .unlockRx again }) with
      cTxLock := queueUnlocked
      xTasksWaitingToReceive := unlockLoop s.cTxLock.toNat s.xTasksWaitingToReceive }
  | .unlockRx again =>
    { s.setTask t (some { c with pc := .resume again }) with
      cRxLock := queueUnlocked
      xTasksWaitingToSend := unlockLoop s.cRxLock.toNat s.xTasksWaitingToSend }
  | .resume again =>
    -- a send that timed out returns at once
    let c? := if again then some { c with pc := .attempt }
      else if c.call.sends then none else some { c with pc := .timedOut }
    { s.setTask t c? with suspendedBy := none }
  | .timedOut => s.setTask t (if s.missing c.call then none else some { c with pc := .attempt })

/-- `xQueueGenericSendFromISR`. -/
def sendFromISR (item : Nat → Byte) (front : Bool) : Option (Kernel n) :=
  let r := xQueueGenericSend s.queue item (position front)
  if r.1 then
    if s.cTxLock = queueUnlocked then
      some { s with queue := r.2, xTasksWaitingToReceive := wake s.xTasksWaitingToReceive }
    else (prvIncrementQueueLock n s.cTxLock).map fun lock => { s with queue := r.2, cTxLock := lock }
  else some s

/-- `xQueueReceiveFromISR`. -/
def receiveFromISR : Option (Kernel n) :=
  let r := RtosQueue.xQueueReceive s.queue
  if r.1.isSome then
    if s.cRxLock = queueUnlocked then
      some { s with queue := r.2, xTasksWaitingToSend := wake s.xTasksWaitingToSend }
    else (prvIncrementQueueLock n s.cRxLock).map fun lock => { s with queue := r.2, cRxLock := lock }
  else some s

/-- `xQueueReset`: one of the tasks that wait to send is removed from its list. -/
def reset : Kernel n :=
  match xQueueGenericReset s.queue with
  | some q =>
    { s with
      queue := q
      cRxLock := queueUnlocked
      cTxLock := queueUnlocked
      xTasksWaitingToSend := wake s.xTasksWaitingToSend }
  | none => s

/-- The task is on an event list. -/
def Waits (t : Fin n) : Prop := t ∈ s.xTasksWaitingToSend ∨ t ∈ s.xTasksWaitingToReceive

/-- The task can run. -/
def Runs (t : Fin n) : Prop := s.suspendedBy = some t ∨ s.suspendedBy = none ∧ ¬ s.Waits t

instance (t : Fin n) : Decidable (s.Waits t) := inferInstanceAs (Decidable (_ ∨ _))
instance (t : Fin n) : Decidable (s.Runs t) := inferInstanceAs (Decidable (_ ∨ _))

end Kernel

/-- What happens: a task begins a call or runs on in one, the tick removes a task from its event
list as its time is over, an interrupt sends, receives or peeks, or a task resets the queue. -/
inductive KernelAct (n : Nat)
  | call (t : Fin n) (c : Call) (waits : Bool)
  | run (t : Fin n) (expired : Bool)
  | timeout (t : Fin n)
  | sendFromISR (item : Nat → Byte) (front : Bool)
  | receiveFromISR
  | peekFromISR
  | reset

/-- The tasks and interrupts at a queue. -/
def kernel (prio : Fin n → Nat) : Lts (Kernel n) (KernelAct n) where
  init s := ∃ q, s = ⟨q, queueUnlocked, queueUnlocked, [], [], fun _ => none, none⟩
  next s
    | .call t c waits =>
      if s.Runs t ∧ (s.tasks t).isNone then some (s.setTask t (some ⟨c, waits, .attempt⟩)) else none
    | .run t expired => if s.Runs t then (s.tasks t).map fun c => s.run prio t c expired else none
    | .timeout t =>
      if s.suspendedBy = none ∧ s.Waits t then
        some
          { s with
            xTasksWaitingToSend := s.xTasksWaitingToSend.erase t
            xTasksWaitingToReceive := s.xTasksWaitingToReceive.erase t }
      else none
    | .sendFromISR item front => s.sendFromISR item front
    | .receiveFromISR => s.receiveFromISR
    | .peekFromISR => some { s with queue := (xQueuePeek s.queue).2 }
    | .reset => if s.suspendedBy = none then some s.reset else none

end Rs485.RtosQueue
