import Rs485.Framework.Mem

/-!
# The ring buffer (`cqueue.c`)

A queue of elements of one type in a buffer it was given. An index is that of an
element, so that the copy of an element at `head * size` bytes is a store at the
index `head`. The accesses of the buffer are recorded (`Mem`).
-/

namespace Rs485.Utils

open Rs485.Framework

/-- `CQueue_t`, with the buffer it points to. -/
structure CQueue (α : Type) where
  buff : Mem Unit α
  len : Nat
  head : Nat
  tail : Nat
  count : Nat

variable {α : Type}

/-- `cqueue_init_static`. -/
def cqueueInitStatic (buff : Mem Unit α) (len : Nat) : CQueue α :=
  { buff := buff, len := len, count := 0, head := 0, tail := 0 }

/-- `cqueue_is_empty`. -/
def cqueueIsEmpty (queue : CQueue α) : Bool := queue.count = 0

/-- `cqueue_is_full`. -/
def cqueueIsFull (queue : CQueue α) : Bool := queue.count = queue.len

/-- `cqueue_receive`: the item, or nothing (`false`, and `*item` stays as it was). -/
def cqueueReceive (queue : CQueue α) : Option α × CQueue α :=
  if cqueueIsEmpty queue then
    (none, queue)
  else
    (some (queue.buff.data () queue.tail),
      { queue with
        buff := queue.buff.touch ⟨(), queue.tail⟩
        tail := (queue.tail + 1) % queue.len
        count := queue.count - 1 })

/-- `cqueue_send`. -/
def cqueueSend (queue : CQueue α) (item : α) : Bool × CQueue α :=
  if cqueueIsFull queue then
    (false, queue)
  else
    (true,
      { queue with
        buff := queue.buff.store ⟨(), queue.head⟩ item
        head := (queue.head + 1) % queue.len
        count := queue.count + 1 })

end Rs485.Utils
