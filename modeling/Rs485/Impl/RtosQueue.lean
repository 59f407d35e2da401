import Rs485.Framework.Mem
import Rs485.Spec.Deque

/-!
# The queues of the kernel (`queue.c`)

A queue copies items of `uxItemSize` octets into a storage of `uxLength` items, written at
`pcWriteTo`; the item before the one to be received is at `pcReadFrom`. The storage is an
object of a memory, so that its accesses are recorded, and pointers are offsets from
`pcHead`.

The functions here are what a call does in its critical section, so that a sequence of them is any
order of the attempts of tasks and interrupts. Mutexes and queue sets are left out.
-/

namespace Rs485.RtosQueue

open Rs485.Framework Rs485.Spec

abbrev Byte := BitVec 8

/-- `SIZE_MAX`. -/
abbrev sizeMax : Nat := 0xFFFFFFFF

/-- `Queue_t`. -/
structure Queue where
  storage : Mem Unit Byte
  pcTail : Nat
  pcWriteTo : Nat
  pcReadFrom : Nat
  uxMessagesWaiting : Nat
  uxLength : Nat
  uxItemSize : Nat

/-- `xCopyPosition`. -/
inductive Position
  | sendToBack
  | sendToFront
  | overwrite
deriving DecidableEq, Repr

/-- The `n` octets at `item`. -/
def octets (n : Nat) (item : Nat → Byte) : List Byte := (List.range n).map item

/-! ## Creation -/

/-- `xQueueGenericReset`; nothing is `pdFAIL`. -/
def xQueueGenericReset (q : Queue) : Option Queue :=
  if q.uxLength ≥ 1 ∧ sizeMax / q.uxLength ≥ q.uxItemSize then
    some
      { q with
        pcTail := q.uxLength * q.uxItemSize
        uxMessagesWaiting := 0
        pcWriteTo := 0
        pcReadFrom := (q.uxLength - 1) * q.uxItemSize }
  else none

/-- `prvInitialiseNewQueue`. -/
def prvInitialiseNewQueue (uxQueueLength uxItemSize : Nat) (storage : Mem Unit Byte) : Queue :=
  let q : Queue := ⟨storage, 0, 0, 0, 0, uxQueueLength, uxItemSize⟩
  (xQueueGenericReset q).getD q

/-- `xQueueGenericCreate`, with the size of a `Queue_t` and what `pvPortMalloc` returns. -/
def xQueueGenericCreate (sizeofQueue : Nat) (pvPortMalloc : Option (Mem Unit Byte))
    (uxQueueLength uxItemSize : Nat) :
    Option Queue :=
  if uxQueueLength > 0 ∧ sizeMax / uxQueueLength ≥ uxItemSize ∧
      sizeMax - sizeofQueue ≥ uxQueueLength * uxItemSize then
    pvPortMalloc.map (prvInitialiseNewQueue uxQueueLength uxItemSize)
  else none

/-! ## Copies -/

/-- `prvCopyDataToQueue`. -/
def prvCopyDataToQueue (q : Queue) (item : Nat → Byte) (xPosition : Position) : Queue :=
  if q.uxItemSize = 0 then { q with uxMessagesWaiting := q.uxMessagesWaiting + 1 }
  else if xPosition = .sendToBack then
    let pcWriteTo := q.pcWriteTo + q.uxItemSize
    { q with
      storage := q.storage.storeList ⟨(), q.pcWriteTo⟩ (octets q.uxItemSize item)
      pcWriteTo := if pcWriteTo ≥ q.pcTail then 0 else pcWriteTo
      uxMessagesWaiting := q.uxMessagesWaiting + 1 }
  else
    let pcReadFrom : Int := q.pcReadFrom - q.uxItemSize
    let uxMessagesWaiting :=
      if xPosition = .overwrite ∧ q.uxMessagesWaiting > 0 then q.uxMessagesWaiting - 1 else q.uxMessagesWaiting
    { q with
      storage := q.storage.storeList ⟨(), q.pcReadFrom⟩ (octets q.uxItemSize item)
      pcReadFrom := if pcReadFrom < 0 then q.pcTail - q.uxItemSize else pcReadFrom.toNat
      uxMessagesWaiting := uxMessagesWaiting + 1 }

/-- `prvCopyDataFromQueue`, with what it leaves in `pvBuffer`. -/
def prvCopyDataFromQueue (q : Queue) : List Byte × Queue :=
  if q.uxItemSize ≠ 0 then
    let next := q.pcReadFrom + q.uxItemSize
    let pcReadFrom := if next ≥ q.pcTail then 0 else next
    (q.storage.slice ⟨(), pcReadFrom⟩ q.uxItemSize,
      { q with pcReadFrom := pcReadFrom, storage := q.storage.touchN ⟨(), pcReadFrom⟩ q.uxItemSize })
  else ([], q)

/-! ## Attempts -/

/-- An attempt of `xQueueGenericSend`, or `xQueueGenericSendFromISR`: whether there was room. -/
def xQueueGenericSend (q : Queue) (item : Nat → Byte) (xCopyPosition : Position) : Bool × Queue :=
  if q.uxMessagesWaiting < q.uxLength ∨ xCopyPosition = .overwrite then
    (true, prvCopyDataToQueue q item xCopyPosition)
  else (false, q)

/-- An attempt of `xQueueReceive`, or `xQueueReceiveFromISR`. -/
def xQueueReceive (q : Queue) : Option (List Byte) × Queue :=
  if q.uxMessagesWaiting > 0 then
    let (item, t) := prvCopyDataFromQueue q
    (some item, { t with uxMessagesWaiting := q.uxMessagesWaiting - 1 })
  else (none, q)

/-- An attempt of `xQueuePeek`, or `xQueuePeekFromISR`. -/
def xQueuePeek (q : Queue) : Option (List Byte) × Queue :=
  if q.uxMessagesWaiting > 0 then
    let (item, t) := prvCopyDataFromQueue q
    (some item, { t with pcReadFrom := q.pcReadFrom })
  else (none, q)

/-- `uxQueueMessagesWaiting`. -/
def uxQueueMessagesWaiting (q : Queue) : Nat := q.uxMessagesWaiting

/-- `uxQueueSpacesAvailable`. -/
def uxQueueSpacesAvailable (q : Queue) : Nat := q.uxLength - q.uxMessagesWaiting

/-- `xQueueReset`: whether it passes. -/
def xQueueReset (q : Queue) : Bool × Queue := ((xQueueGenericReset q).isSome, (xQueueGenericReset q).getD q)

/-- What an operation gives and leaves. -/
def Queue.call (q : Queue) : Deque.Op (Nat → Byte) → Deque.Result (List Byte) × Queue
  | .sendToBack item =>
    (.flag (xQueueGenericSend q item .sendToBack).1, (xQueueGenericSend q item .sendToBack).2)
  | .sendToFront item =>
    (.flag (xQueueGenericSend q item .sendToFront).1, (xQueueGenericSend q item .sendToFront).2)
  | .overwrite item =>
    (.flag (xQueueGenericSend q item .overwrite).1, (xQueueGenericSend q item .overwrite).2)
  | .receive => (.item (xQueueReceive q).1, (xQueueReceive q).2)
  | .peek => (.item (xQueuePeek q).1, (xQueuePeek q).2)
  | .reset => (.flag (xQueueReset q).1, (xQueueReset q).2)
  | .messagesWaiting => (.number (uxQueueMessagesWaiting q), q)
  | .spacesAvailable => (.number (uxQueueSpacesAvailable q), q)

/-- The results of operations one after the other, and what they leave. -/
def Queue.calls : Queue → List (Deque.Op (Nat → Byte)) → List (Deque.Result (List Byte)) × Queue
  | q, [] => ([], q)
  | q, op :: ops =>
    let (r, q) := q.call op
    let (rs, q) := q.calls ops
    (r :: rs, q)

end Rs485.RtosQueue
