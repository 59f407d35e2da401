import Rs485.Framework.Lts
import Rs485.Framework.Mem

/-!
# The FIFOs of the USB stack (`tusb_fifo.c`)

A FIFO has a buffer of `depth` octets and two indices below `2 * depth`, so that a full
FIFO and an empty one differ; an overwritable one may hold more than `depth` octets until
it is read. The buffer is an object of a memory, so that its accesses are recorded. The
copies are those between memories: the access modes of the hardware FIFOs are left out.

`shared` is a FIFO with a call of `tu_fifo_write_n` and one of `tu_fifo_read_n` under way, each of which
copies one octet at a time.
-/

namespace Rs485.TuFifo

open Rs485.Framework

abbrev Byte := BitVec 8

/-- `tu_fifo_t`. -/
structure Fifo where
  buffer : Mem Unit Byte
  depth : Nat
  overwritable : Bool
  wrIdx : Nat
  rdIdx : Nat

/-- `tu_fifo_config`. -/
def tuFifoConfig (buffer : Mem Unit Byte) (depth : Nat) (overwritable : Bool) : Option Fifo :=
  if depth > 0x8000 then none
  else some { buffer := buffer, depth := depth, overwritable := overwritable, rdIdx := 0, wrIdx := 0 }

/-- `tu_fifo_clear`. -/
def tuFifoClear (f : Fifo) : Fifo := { f with rdIdx := 0, wrIdx := 0 }

/-- `tu_fifo_set_overwritable`. -/
def tuFifoSetOverwritable (f : Fifo) (overwritable : Bool) : Fifo :=
  if f.overwritable = overwritable then f else { f with overwritable := overwritable }

/-! ## Indices -/

/-- `tu_ff_overflow_count`. -/
def tuFfOverflowCount (depth wrIdx rdIdx : Nat) : Nat :=
  let diff : Int := wrIdx - rdIdx
  if diff ≥ 0 then diff.toNat else ((2 * depth + diff) % 65536).toNat

/-- `tu_ff_remaining_local`. -/
def tuFfRemainingLocal (depth wrIdx rdIdx : Nat) : Nat :=
  let ovfCount := tuFfOverflowCount depth wrIdx rdIdx
  if depth > ovfCount then depth - ovfCount else 0

/-- `advance_index`. -/
def advanceIndex (depth idx offset : Nat) : Nat :=
  let newIdx := (idx + offset) % 65536
  if idx > newIdx ∨ newIdx ≥ 2 * depth then
    let nonUsedIndexSpace := ((65535 - (2 * depth - 1) : Int) % 65536).toNat
    (newIdx + nonUsedIndexSpace) % 65536
  else newIdx

/-- The loop of `idx2ptr`. -/
def idx2ptrLoop (depth : Nat) : Nat → Nat → Nat
  | 0, idx => idx
  | fuel + 1, idx => if idx ≥ depth then idx2ptrLoop depth fuel (idx - depth) else idx

/-- `idx2ptr`, which ends if the depth is not zero. -/
def idx2ptr (depth idx : Nat) : Nat := idx2ptrLoop depth idx idx

/-- `correct_read_index`, whose result is the new `rd_idx`. -/
def correctReadIndex (f : Fifo) (wrIdx : Nat) : Fifo :=
  { f with rdIdx := if wrIdx ≥ f.depth then wrIdx - f.depth else wrIdx + f.depth }

/-- `tu_fifo_empty`. -/
def tuFifoEmpty (f : Fifo) : Bool := f.wrIdx == f.rdIdx

/-- `tu_fifo_count`. -/
def tuFifoCount (f : Fifo) : Nat := min (tuFfOverflowCount f.depth f.wrIdx f.rdIdx) f.depth

/-- `tu_fifo_full`. -/
def tuFifoFull (f : Fifo) : Bool := tuFfOverflowCount f.depth f.wrIdx f.rdIdx ≥ f.depth

/-- `tu_fifo_remaining`. -/
def tuFifoRemaining (f : Fifo) : Nat := tuFfRemainingLocal f.depth f.wrIdx f.rdIdx

/-! ## Copies -/

/-- `ff_push_n` of all of `buf`. -/
def ffPushN (f : Fifo) (buf : List Byte) (wrPtr : Nat) : Fifo :=
  let linBytes := f.depth - wrPtr
  { f with
    buffer :=
      if buf.length ≤ linBytes then f.buffer.storeList ⟨(), wrPtr⟩ buf
      else (f.buffer.storeList ⟨(), wrPtr⟩ (buf.take linBytes)).storeList ⟨(), 0⟩ (buf.drop linBytes) }

/-- `ff_pull_n`. -/
def ffPullN (f : Fifo) (n rdPtr : Nat) : List Byte × Fifo :=
  let linBytes := f.depth - rdPtr
  let wrapBytes := n - linBytes
  if n ≤ linBytes then (f.buffer.slice ⟨(), rdPtr⟩ n, { f with buffer := f.buffer.touchN ⟨(), rdPtr⟩ n })
  else
    (f.buffer.slice ⟨(), rdPtr⟩ linBytes ++ f.buffer.slice ⟨(), 0⟩ wrapBytes,
      { f with buffer := (f.buffer.touchN ⟨(), rdPtr⟩ linBytes).touchN ⟨(), 0⟩ wrapBytes })

/-! ## Many octets -/

/-- `tu_fifo_peek_n_access_mode`. -/
def tuFifoPeekNAccessMode (f : Fifo) (n wrIdx rdIdx : Nat) : List Byte × Fifo :=
  let count := tuFfOverflowCount f.depth wrIdx rdIdx
  if count = 0 then ([], f)
  else if count > f.depth then
    let f := correctReadIndex f wrIdx
    ffPullN f (min n f.depth) (idx2ptr f.depth f.rdIdx)
  else ffPullN f (min n count) (idx2ptr f.depth rdIdx)

/-- `tu_fifo_peek_n`. -/
def tuFifoPeekN (f : Fifo) (n : Nat) : List Byte × Fifo := tuFifoPeekNAccessMode f n f.wrIdx f.rdIdx

/-- `tu_fifo_read_n`. -/
def tuFifoReadN (f : Fifo) (n : Nat) : List Byte × Fifo :=
  let r := tuFifoPeekNAccessMode f n f.wrIdx f.rdIdx
  let f := r.2
  (r.1, { f with rdIdx := advanceIndex f.depth f.rdIdx r.1.length })

/-- The octets of `data` that `tu_fifo_write_n` writes, and the index from which on it does. -/
def writeRange (f : Fifo) (data : List Byte) : List Byte × Nat :=
  if ¬ f.overwritable then (data.take (tuFfRemainingLocal f.depth f.wrIdx f.rdIdx), f.wrIdx)
  else if data.length ≥ f.depth then
    -- the last part, from the read index on
    (data.drop (data.length - f.depth), f.rdIdx)
  else if tuFfOverflowCount f.depth f.wrIdx f.rdIdx + data.length ≥ 2 * f.depth then
    -- double overflow: the FIFO is full afterwards
    (data, advanceIndex f.depth f.rdIdx (f.depth - data.length))
  else (data, f.wrIdx)

/-- The octets `buf` are pushed from `wrIdx` on, and the write index is stored. -/
def pushFrom (f : Fifo) (buf : List Byte) (wrIdx : Nat) : Fifo :=
  { ffPushN f buf (idx2ptr f.depth wrIdx) with wrIdx := advanceIndex f.depth wrIdx buf.length }

/-- `tu_fifo_write_n` of all of `data`. -/
def tuFifoWriteN (f : Fifo) (data : List Byte) : Nat × Fifo :=
  if data.length = 0 then (0, f)
  else
    let (buf, wrIdx) := writeRange f data
    if buf.length ≠ 0 then (buf.length, pushFrom f buf wrIdx) else (0, f)

/-- `tu_fifo_discard_n`. -/
def tuFifoDiscardN (f : Fifo) (n : Nat) : Nat × Fifo :=
  let count := min n (tuFifoCount f)
  (count, { f with rdIdx := advanceIndex f.depth f.rdIdx count })

/-! ## One octet -/

/-- `ff_peek_local`. -/
def ffPeekLocal (f : Fifo) (wrIdx rdIdx : Nat) : Option Byte × Fifo :=
  let ovfCount := tuFfOverflowCount f.depth wrIdx rdIdx
  if ovfCount = 0 then (none, f)
  else
    let r :=
      if ovfCount > f.depth then (correctReadIndex f wrIdx, (correctReadIndex f wrIdx).rdIdx)
      else (f, rdIdx)
    let rdPtr := idx2ptr f.depth r.2
    (some (r.1.buffer.data () rdPtr), { r.1 with buffer := r.1.buffer.touch ⟨(), rdPtr⟩ })

/-- `tu_fifo_read`. -/
def tuFifoRead (f : Fifo) : Option Byte × Fifo :=
  match ffPeekLocal f f.wrIdx f.rdIdx with
  | (none, f) => (none, f)
  | (some x, f) => (some x, { f with rdIdx := advanceIndex f.depth f.rdIdx 1 })

/-- `tu_fifo_peek`. -/
def tuFifoPeek (f : Fifo) : Option Byte × Fifo := ffPeekLocal f f.wrIdx f.rdIdx

/-- `tu_fifo_write`. -/
def tuFifoWrite (f : Fifo) (x : Byte) : Bool × Fifo :=
  if tuFifoFull f ∧ ¬ f.overwritable then (false, f)
  else
    let wrPtr := idx2ptr f.depth f.wrIdx
    (true, { f with buffer := f.buffer.store ⟨(), wrPtr⟩ x, wrIdx := advanceIndex f.depth f.wrIdx 1 })

/-! ## Access by others -/

/-- `tu_fifo_advance_write_pointer`. -/
def tuFifoAdvanceWritePointer (f : Fifo) (n : Nat) : Fifo := { f with wrIdx := advanceIndex f.depth f.wrIdx n }

/-- `tu_fifo_advance_read_pointer`. -/
def tuFifoAdvanceReadPointer (f : Fifo) (n : Nat) : Fifo := { f with rdIdx := advanceIndex f.depth f.rdIdx n }

/-- `tu_fifo_buffer_info_t`: offsets in the buffer and lengths; a part without octets has no pointer. -/
structure BufferInfo where
  linearLen : Nat
  linearPtr : Nat
  wrappedLen : Nat
  wrappedPtr : Nat
deriving DecidableEq, Repr

/-- The parts with the first `cnt` octets. -/
def readParts (f : Fifo) (cnt : Nat) : BufferInfo :=
  if cnt = 0 then ⟨0, 0, 0, 0⟩
  else
    let wrPtr := idx2ptr f.depth f.wrIdx
    let rdPtr := idx2ptr f.depth f.rdIdx
    if wrPtr > rdPtr then ⟨cnt, rdPtr, 0, 0⟩
    else ⟨f.depth - rdPtr, rdPtr, cnt - (f.depth - rdPtr), 0⟩

/-- `tu_fifo_get_read_info`. -/
def tuFifoGetReadInfo (f : Fifo) : BufferInfo × Fifo :=
  let cnt := tuFfOverflowCount f.depth f.wrIdx f.rdIdx
  if cnt > f.depth then
    let f := correctReadIndex f f.wrIdx
    (readParts f f.depth, f)
  else (readParts f cnt, f)

/-- `tu_fifo_get_write_info`. -/
def tuFifoGetWriteInfo (f : Fifo) : BufferInfo :=
  let remain := tuFfRemainingLocal f.depth f.wrIdx f.rdIdx
  if remain = 0 then ⟨0, 0, 0, 0⟩
  else
    let wrPtr := idx2ptr f.depth f.wrIdx
    let rdPtr := idx2ptr f.depth f.rdIdx
    if wrPtr < rdPtr then ⟨rdPtr - wrPtr, wrPtr, 0, 0⟩
    else ⟨f.depth - wrPtr, wrPtr, remain - (f.depth - wrPtr), 0⟩

/-- Another party stores octets in the two parts that `tu_fifo_get_write_info` gives, as many as
they take, and moves the write pointer on. -/
def fillParts (f : Fifo) (xs : List Byte) : Nat × Fifo :=
  let info := tuFifoGetWriteInfo f
  let xs := xs.take (info.linearLen + info.wrappedLen)
  let buffer :=
    (f.buffer.storeList ⟨(), info.linearPtr⟩ (xs.take info.linearLen)).storeList ⟨(), info.wrappedPtr⟩
      (xs.drop info.linearLen)
  (xs.length, tuFifoAdvanceWritePointer { f with buffer := buffer } xs.length)

/-- Another party takes octets from the two parts that `tu_fifo_get_read_info` gives, as many as
there are, and moves the read pointer on. -/
def drainParts (f : Fifo) (n : Nat) : List Byte × Fifo :=
  let (info, f) := tuFifoGetReadInfo f
  let xs :=
    f.buffer.slice ⟨(), info.linearPtr⟩ info.linearLen ++
      f.buffer.slice ⟨(), info.wrappedPtr⟩ info.wrappedLen
  let buffer :=
    (f.buffer.touchN ⟨(), info.linearPtr⟩ info.linearLen).touchN ⟨(), info.wrappedPtr⟩ info.wrappedLen
  ((xs.take n), tuFifoAdvanceReadPointer { f with buffer := buffer } (xs.take n).length)

/-! ## A writer and a reader at once -/

/-- A call of `tu_fifo_write_n`: the octets that it writes, the index from which on, and how many
are copied. -/
structure Writing where
  buf : List Byte
  wrIdx : Nat
  copied : Nat
deriving DecidableEq, Repr

/-- A call of `tu_fifo_read_n`: how many octets it takes, the offset of the first, and those copied. -/
structure Reading where
  n : Nat
  rdPtr : Nat
  copied : List Byte
deriving DecidableEq, Repr

/-- A FIFO and the calls under way. The octets of the calls that have returned are no variables of the
source. -/
structure Shared where
  fifo : Fifo
  writer : Option Writing
  reader : Option Reading
  accepted : List Byte
  returned : List Byte

/-- The offset of the `i`th octet of a copy that begins at `ptr`, in the linear part or in the wrapped one. -/
def copyPtr (depth ptr i : Nat) : Nat := if i < depth - ptr then ptr + i else i - (depth - ptr)

/-- `tu_fifo_write_n` begins, and loads the indices. -/
def writeBegin (s : Shared) (data : List Byte) : Shared :=
  let (buf, wrIdx) := writeRange s.fifo data
  { s with writer := some ⟨buf, wrIdx, 0⟩ }

/-- `tu_fifo_write_n` copies an octet, or stores the index and returns. -/
def writeStep (s : Shared) (c : Writing) : Shared :=
  let f := s.fifo
  match c.buf[c.copied]? with
  | some x =>
    { s with
      fifo.buffer := f.buffer.store ⟨(), copyPtr f.depth (idx2ptr f.depth c.wrIdx) c.copied⟩ x
      writer := some { c with copied := c.copied + 1 } }
  | none =>
    { s with
      fifo := if c.buf.length ≠ 0 then { f with wrIdx := advanceIndex f.depth c.wrIdx c.buf.length } else f
      writer := none
      accepted := s.accepted ++ c.buf }

/-- `tu_fifo_read_n` begins, and loads the indices. -/
def readBegin (s : Shared) (n : Nat) : Shared :=
  let f := s.fifo
  let count := tuFfOverflowCount f.depth f.wrIdx f.rdIdx
  let f := if count > f.depth then correctReadIndex f f.wrIdx else f
  { s with fifo := f, reader := some ⟨min n (min count f.depth), idx2ptr f.depth f.rdIdx, []⟩ }

/-- `tu_fifo_read_n` copies an octet, or stores the index and returns. -/
def readStep (s : Shared) (c : Reading) : Shared :=
  let f := s.fifo
  if c.copied.length < c.n then
    let ptr := copyPtr f.depth c.rdPtr c.copied.length
    { s with
      fifo.buffer := f.buffer.touch ⟨(), ptr⟩
      reader := some { c with copied := c.copied ++ [f.buffer.data () ptr] } }
  else
    { s with
      fifo := { f with rdIdx := advanceIndex f.depth f.rdIdx c.n }
      reader := none
      returned := s.returned ++ c.copied }

/-- What happens next. -/
inductive SharedAct
  | writeBegin (data : List Byte)
  | writeStep
  | readBegin (n : Nat)
  | readStep
deriving DecidableEq, Repr

/-- One writer and one reader, in any order. -/
def shared : Lts Shared SharedAct where
  init s := ∃ buffer depth f, 0 < depth ∧ buffer.log = [] ∧ tuFifoConfig buffer depth false = some f ∧
    s = ⟨f, none, none, [], []⟩
  next s
    | .writeBegin data => match s.writer with
      | none => some (writeBegin s data)
      | some _ => none
    | .writeStep => s.writer.map (writeStep s)
    | .readBegin n => match s.reader with
      | none => some (readBegin s n)
      | some _ => none
    | .readStep => s.reader.map (readStep s)

end Rs485.TuFifo
