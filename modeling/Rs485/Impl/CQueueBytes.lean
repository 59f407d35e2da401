import Rs485.Framework.Mem

/-!
# The ring buffer, byte by byte (`cqueue.c`)

The queue with the arithmetic of the source. `size`, `len` and `count` are of
type `size_t`, which has 32 bits here, and `head` and `tail` of type `int`; an
element is copied by `memcpy` between the buffer and the item of the caller.
Where C does not define what happens, the call ends in a `Fault`.
-/

namespace Rs485.Utils.Bytes

open Rs485.Framework

abbrev Byte := BitVec 8

/-- `size_t`. -/
abbrev Size := BitVec 32

/-- `INT_MAX`. -/
abbrev intMax : Int := 0x7FFFFFFF

/-- The buffer of the queue, and the item that the caller points to. -/
inductive Obj
  | buff | item
deriving DecidableEq

/-- What C leaves undefined. -/
inductive Fault
  | overflow | divisionByZero
deriving DecidableEq

/-- `CQueue_t`, with the memory it works on. -/
structure CQueueT where
  mem : Mem Obj Byte
  size : Size
  len : Size
  head : Int
  tail : Int
  count : Size

/-- `cqueue_init_static`. -/
def cqueueInitStatic (mem : Mem Obj Byte) (len size : Size) : CQueueT :=
  { mem := mem, len := len, size := size, count := 0, head := 0, tail := 0 }

/-- `cqueue_is_empty`. -/
def cqueueIsEmpty (queue : CQueueT) : Bool := queue.count = 0

/-- `cqueue_is_full`. -/
def cqueueIsFull (queue : CQueueT) : Bool := queue.count = queue.len

/-- `queue->buff + index * queue->size`: the product is one of `size_t`. -/
def CQueueT.place (queue : CQueueT) (index : Int) : Ptr Obj :=
  ⟨.buff, (BitVec.ofInt 32 index * queue.size).toNat⟩

/-- `(index + 1) % queue->len`: the sum is one of `int`, the remainder one of `size_t`. -/
def nextIndex (index : Int) (len : Size) : Except Fault Int :=
  if intMax ≤ index then
    .error .overflow
  else if len = 0 then
    .error .divisionByZero
  else
    .ok (BitVec.ofInt 32 (index + 1) % len).toInt

/-- `cqueue_receive`. -/
def cqueueReceive (queue : CQueueT) : Except Fault (Bool × CQueueT) := do
  if !cqueueIsEmpty queue then
    let mem := queue.mem.copy ⟨.item, 0⟩ (queue.place queue.tail) queue.size.toNat
    let tail ← nextIndex queue.tail queue.len
    return (true, { queue with mem := mem, tail := tail, count := queue.count - 1 })
  else
    return (false, queue)

/-- `cqueue_send`. -/
def cqueueSend (queue : CQueueT) : Except Fault (Bool × CQueueT) := do
  if !cqueueIsFull queue then
    let mem := queue.mem.copy (queue.place queue.head) ⟨.item, 0⟩ queue.size.toNat
    let next ← nextIndex queue.head queue.len
    return (true, { queue with mem := mem, head := next, count := queue.count + 1 })
  else
    return (false, queue)

/-! ## Calls -/

/-- A call, with what the item of the caller holds before it. -/
inductive Call
  | send (item : Nat → Byte)
  | receive (item : Nat → Byte)

/-- The item of the caller. -/
def Call.item : Call → Nat → Byte
  | .send item => item
  | .receive item => item

/-- The queue, called with another item. -/
def CQueueT.withItem (queue : CQueueT) (item : Nat → Byte) : CQueueT :=
  { queue with mem := { queue.mem with data := Function.update queue.mem.data .item item } }

/-- The call. -/
def Call.run (queue : CQueueT) : Call → Except Fault (Bool × CQueueT)
  | .send item => cqueueSend (queue.withItem item)
  | .receive item => cqueueReceive (queue.withItem item)

/-- The calls one after the other: what each returns and leaves in its item, and the queue in the end. -/
def runs (queue : CQueueT) : List Call → Except Fault (List (Bool × (Nat → Byte)) × CQueueT)
  | [] => .ok ([], queue)
  | c :: cs => do
    let (result, queue) ← c.run queue
    let (results, last) ← runs queue cs
    return ((result, queue.mem.data .item) :: results, last)

end Rs485.Utils.Bytes
