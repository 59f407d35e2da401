import Rs485.Impl.CQueueBytes
import Rs485.Proof.CQueue

/-!
# The ring buffer is a bounded queue

The queue of bytes does what the queue of elements does (`Refines`), whose elements are the
strings of `size` bytes in its buffer, and so what a list does (`Refines.run`), call after call. Never
does C leave anything undefined: the indices are below `len`, which an `int` can hold, and
a queue with `len = 0` is at once empty and full, so that no index is ever advanced.
-/

namespace Rs485.Utils

open Rs485.Framework Rs485.Spec

namespace Bytes

/-! ## The arithmetic -/

section

variable {len size : Size} {n : Nat}

/-- Advancing an index is defined, and is what it is meant to be. -/
theorem nextIndex_eq (hlen : len.toNat ≤ intMax) (h : n < len.toNat) :
    nextIndex n len = .ok ((n + 1) % len.toNat : Nat) := by
  unfold intMax at hlen
  have hmod : (n + 1) % len.toNat < len.toNat := Nat.mod_lt _ (by omega)
  have hn : (n + 1) % 0x100000000 = n + 1 := Nat.mod_eq_of_lt (by omega)
  have hne : len ≠ 0 := by
    rintro rfl
    exact absurd h (Nat.not_lt_zero n)
  have hval : (BitVec.ofInt 32 ((n : Int) + 1) % len).toNat = (n + 1) % len.toNat := by
    rw [BitVec.toNat_umod, show ((n : Int) + 1) = ((n + 1 : Nat) : Int) from rfl, BitVec.ofInt_natCast,
      BitVec.toNat_ofNat, hn]
  rw [nextIndex, intMax, if_neg (by omega), if_neg hne, BitVec.toInt_eq_toNat_of_lt (by omega), hval]

/-- The place of an element does not wrap. -/
theorem place_eq {q : CQueueT} (hfits : q.len.toNat * q.size.toNat < 0x100000000) (h : n < q.len.toNat) :
    q.place n = ⟨.buff, n * q.size.toNat⟩ := by
  have hle : n * q.size.toNat ≤ q.len.toNat * q.size.toNat := Nat.mul_le_mul_right _ (Nat.le_of_lt h)
  have hn := q.len.isLt
  rw [CQueueT.place, BitVec.ofInt_natCast, BitVec.toNat_mul, BitVec.toNat_ofNat,
    Nat.mod_eq_of_lt (show n < 0x100000000 by omega), Nat.mod_eq_of_lt (by omega)]

end

/-! ## The queue of elements -/

/-- An element: the bytes of one of its places. -/
abbrev Element := List Byte

/-- The queue `q` of bytes stands for the queue `g` of elements. Its buffer has `len * size` bytes, which
a `size_t` can tell, and was accessed in no other place. -/
structure Refines (q : CQueueT) (g : CQueue Element) : Prop where
  wellFormed : WellFormed g
  len : q.len.toNat = g.len
  head : q.head = g.head
  tail : q.tail = g.tail
  count : q.count.toNat = g.count
  cells : ∀ i < g.len, g.buff.data () i = q.mem.slice ⟨.buff, i * q.size.toNat⟩ q.size.toNat
  lenMax : q.len.toNat ≤ intMax
  fits : q.len.toNat * q.size.toNat < 0x100000000
  buffWithin : q.mem.Within .buff (q.len.toNat * q.size.toNat)
  itemWithin : q.mem.Within .item q.size.toNat

/-- The element in the item of the caller. -/
def CQueueT.itemElement (q : CQueueT) : Element := q.mem.slice ⟨.item, 0⟩ q.size.toNat

section

variable {q : CQueueT} {g : CQueue Element}

/-- Places of different elements. -/
theorem place_disjoint {i j size : Nat} (h : i ≠ j) :
    i * size + size ≤ j * size ∨ j * size + size ≤ i * size := by
  rw [← Nat.succ_mul, ← Nat.succ_mul]
  rcases Nat.lt_or_gt_of_ne h with h | h
  · exact Or.inl (Nat.mul_le_mul_right _ h)
  · exact Or.inr (Nat.mul_le_mul_right _ h)

theorem place_within {i len size : Nat} (h : i < len) : i * size + size ≤ len * size := by
  rw [← Nat.succ_mul]
  exact Nat.mul_le_mul_right _ h

/-- The item of the caller is not in the buffer. -/
theorem Refines.withItem (h : Refines q g) (item : Nat → Byte) : Refines (q.withItem item) g :=
  { h with }

/-- An empty buffer. -/
theorem refines_init {mem : Mem Obj Byte} {len size : Size} (hlen : len.toNat ≤ intMax)
    (hfits : len.toNat * size.toNat < 0x100000000) (hlog : mem.log = []) :
    Refines (cqueueInitStatic mem len size)
      (Utils.cqueueInitStatic ⟨fun _ i => mem.slice ⟨.buff, i * size.toNat⟩ size.toNat, []⟩ len.toNat) where
  wellFormed := wellFormed_init _ _
  len := rfl
  head := rfl
  tail := rfl
  count := rfl
  cells _ _ := rfl
  lenMax := hlen
  fits := hfits
  buffWithin := fun i hi => by simp [cqueueInitStatic, hlog] at hi
  itemWithin := fun i hi => by simp [cqueueInitStatic, hlog] at hi

/-- A full queue. -/
theorem Refines.send_full (h : Refines q g) (hfull : g.count = g.len) : cqueueSend q = .ok (false, q) := by
  have hcount : q.count = q.len := BitVec.eq_of_toNat_eq (by rw [h.count, h.len, hfull])
  simp [cqueueSend, cqueueIsFull, hcount, pure, Except.pure]

/-- Where the queue of elements has an index, the queue of bytes has the place, and can advance. -/
theorem Refines.index (h : Refines q g) {n : Nat} (hn : n < g.len) :
    q.place n = ⟨.buff, n * q.size.toNat⟩ ∧ nextIndex n q.len = .ok ((n + 1) % g.len : Nat) := by
  rw [← h.len] at hn ⊢
  exact ⟨place_eq h.fits hn, nextIndex_eq h.lenMax hn⟩

/-- A queue with room. -/
theorem Refines.send_room (h : Refines q g) (hroom : g.count ≠ g.len) :
    ∃ q', cqueueSend q = .ok (true, q') ∧ Refines q' (Utils.cqueueSend g q.itemElement).2 ∧
      q'.size = q.size ∧ q'.mem.data .item = q.mem.data .item := by
  have hlt : g.count < g.len := Nat.lt_of_le_of_ne h.wellFormed.count hroom
  have hhead := h.wellFormed.head_lt (by omega)
  obtain ⟨hplace, hnext⟩ := h.index hhead
  have hlen := h.len
  have hmax := q.len.isLt
  have hcount : (q.count + 1).toNat = g.count + 1 := by
    rw [BitVec.toNat_add, h.count]
    exact Nat.mod_eq_of_lt (show g.count + 1 < 0x100000000 by omega)
  have hne : q.count ≠ q.len := fun he => hroom (by rw [← h.count, ← h.len, he])
  have hobj : Obj.item ≠ Obj.buff := by decide
  have hsend : cqueueSend q = .ok (true, { q with
      mem := q.mem.copy ⟨.buff, g.head * q.size.toNat⟩ ⟨.item, 0⟩ q.size.toNat
      head := ((g.head + 1) % g.len : Nat)
      count := q.count + 1 }) := by
    rw [← h.head] at hplace hnext
    simp [cqueueSend, cqueueIsFull, hne, hplace, hnext, bind, Except.bind, pure, Except.pure]
  refine ⟨_, hsend, ?_, rfl, funext fun i => Mem.copy_data_of_ne hobj hobj i⟩
  have hwf := h.wellFormed.send q.itemElement
  rw [Utils.send_room hroom] at hwf ⊢
  refine ⟨hwf, hlen, rfl, h.tail, hcount, fun i hi => ?_, h.lenMax, h.fits, ?_, ?_⟩
  · by_cases hi' : i = g.head
    · subst hi'
      rw [Mem.slice_copy hobj]
      simp [Mem.store_data, CQueueT.itemElement]
    · rw [Mem.slice_copy_of_disjoint hobj fun _ => place_disjoint hi', ← h.cells i hi]
      simp [Mem.store_data, hi']
  · refine Mem.within_copy (fun _ => ?_) (fun h => by cases h) h.buffWithin
    rw [hlen]
    exact place_within hhead
  · exact Mem.within_copy (fun h => by cases h) (fun _ => Nat.le_of_eq (Nat.zero_add _)) h.itemWithin

/-- An empty queue. -/
theorem Refines.receive_empty (h : Refines q g) (hempty : g.count = 0) :
    cqueueReceive q = .ok (false, q) := by
  have hcount : q.count = 0 := BitVec.eq_of_toNat_eq (by rw [h.count, hempty]; rfl)
  simp [cqueueReceive, cqueueIsEmpty, hcount, pure, Except.pure]

/-- A queue with an element. -/
theorem Refines.receive_some (h : Refines q g) (hne : g.count ≠ 0) :
    ∃ q', cqueueReceive q = .ok (true, q') ∧ Refines q' (Utils.cqueueReceive g).2 ∧
      q'.size = q.size ∧ q'.itemElement = g.buff.data () g.tail ∧
      ∀ i, q.size.toNat ≤ i → q'.mem.data .item i = q.mem.data .item i := by
  have hle := h.wellFormed.count
  have htail := h.wellFormed.tail (by omega)
  obtain ⟨hplace, hnext⟩ := h.index htail
  have hlen := h.len
  have hcount : (q.count - 1).toNat = g.count - 1 := by
    have hpos : (1 : Size).toNat ≤ q.count.toNat := by rw [h.count]; exact Nat.pos_of_ne_zero hne
    rw [BitVec.toNat_sub_of_le (BitVec.le_def.mpr hpos), h.count]
    rfl
  have hzero : ¬ q.count = 0#32 := fun he => hne (by rw [← h.count, he]; rfl)
  have hobj : Obj.buff ≠ Obj.item := by decide
  have hreceive : cqueueReceive q = .ok (true, { q with
      mem := q.mem.copy ⟨.item, 0⟩ ⟨.buff, g.tail * q.size.toNat⟩ q.size.toNat
      tail := ((g.tail + 1) % g.len : Nat)
      count := q.count - 1 }) := by
    rw [← h.tail] at hplace hnext
    simp [cqueueReceive, cqueueIsEmpty, hzero, hplace, hnext, bind, Except.bind, pure, Except.pure]
  refine ⟨_, hreceive, ?_, rfl, ?_, fun i hi => ?_⟩
  · have hwf := h.wellFormed.receive
    rw [Utils.receive_some hne] at hwf ⊢
    refine ⟨hwf, hlen, h.head, rfl, hcount, fun i hi => ?_, h.lenMax, h.fits, ?_, ?_⟩
    · rw [Mem.slice_copy_of_disjoint hobj (fun h => by cases h), ← h.cells i hi]
      rfl
    · refine Mem.within_copy (fun h => by cases h) (fun _ => ?_) h.buffWithin
      rw [hlen]
      exact place_within htail
    · exact Mem.within_copy (fun _ => Nat.le_of_eq (Nat.zero_add _)) (fun h => by cases h) h.itemWithin
  · rw [CQueueT.itemElement, Mem.slice_copy hobj, h.cells _ htail]
  · rw [Mem.copy_data hobj, if_neg fun h => by have := h.2.2; dsimp only at this; omega]

end

/-! ## Lists of calls -/

/-- What a list of elements of `size` bytes, at most `cap` of them, answers to a call, and what it
is then: the item of the caller is overwritten by the element it is given, if there is one. -/
def fifoCall (cap size : Nat) (xs : List Element) : Call → (Bool × (Nat → Byte)) × List Element
  | .send item =>
    match Fifo.send cap xs ((List.range size).map item) with
    | none => ((false, item), xs)
    | some ys => ((true, item), ys)
  | .receive item =>
    match Fifo.receive xs with
    | none => ((false, item), xs)
    | some (x, ys) => ((true, fun i => x.getD i (item i)), ys)

/-- The calls one after the other. -/
def fifoRuns (cap size : Nat) (xs : List Element) : List Call → List (Bool × (Nat → Byte)) × List Element
  | [] => ([], xs)
  | c :: cs =>
    let r := fifoCall cap size xs c
    let rs := fifoRuns cap size r.2 cs
    (r.1 :: rs.1, rs.2)

section

variable {q : CQueueT} {g : CQueue Element}

theorem itemElement_withItem (q : CQueueT) (item : Nat → Byte) :
    (q.withItem item).itemElement = (List.range q.size.toNat).map item :=
  List.map_congr_left fun i _ => congrArg item (Nat.zero_add i)

/-- An item is its element, and the bytes behind it. -/
theorem item_eq {q q' : CQueueT} (hsize : q'.size = q.size)
    (h : ∀ i, q.size.toNat ≤ i → q'.mem.data .item i = q.mem.data .item i) :
    q'.mem.data .item = fun i => q'.itemElement.getD i (q.mem.data .item i) := by
  funext i
  rw [CQueueT.itemElement, hsize, Mem.slice, List.getD_eq_getElem?_getD, List.getElem?_map]
  by_cases hi : i < q.size.toNat
  · rw [List.getElem?_range hi]
    exact congrArg (q'.mem.data .item) (Nat.zero_add i).symm
  · rw [List.getElem?_eq_none (by rw [List.length_range]; omega), h i (by omega)]
    rfl

/-- A call of the queue of bytes answers what the list answers, and one that is refused leaves the queue and
the item as they were. -/
theorem Refines.run (h : Refines q g) (c : Call) :
    ∃ result q' g', c.run q = .ok (result, q') ∧ Refines q' g' ∧ g'.len = g.len ∧ q'.size = q.size ∧
      ((result, q'.mem.data .item), contents g') = fifoCall g.len q.size.toNat (contents g) c ∧
      (result = false → q' = q.withItem c.item) := by
  cases c with
  | send item =>
    have hw := h.withItem item
    have hlist := length_contents g
    rcases h.wellFormed.send_fifo (q.withItem item).itemElement with ⟨hfifo, -⟩ | ⟨hfifo, -⟩
    · have hfull := Fifo.send_eq_none.mp hfifo
      rw [hlist] at hfull
      refine ⟨false, _, g, hw.send_full hfull, hw, rfl, rfl, ?_, fun _ => rfl⟩
      rw [fifoCall, ← itemElement_withItem, hfifo]
      rfl
    · have hroom := (Fifo.send_eq_some.mp hfifo).1
      rw [hlist] at hroom
      obtain ⟨q', hsend, href, hsize, hitem⟩ := hw.send_room hroom
      refine ⟨true, q', _, hsend, href, ?_, hsize, ?_, fun h => by cases h⟩
      · rw [Utils.send_room hroom]
      · rw [fifoCall, ← itemElement_withItem, hfifo, hitem]
        rfl
  | receive item =>
    have hw := h.withItem item
    have hlist := length_contents g
    rcases h.wellFormed.receive_fifo with ⟨hfifo, -⟩ | ⟨x, hfifo, hx⟩
    · have hempty : g.count = 0 := by rw [← hlist, Fifo.receive_eq_none.mp hfifo]; rfl
      refine ⟨false, _, g, hw.receive_empty hempty, hw, rfl, rfl, ?_, fun _ => rfl⟩
      rw [fifoCall, hfifo]
      rfl
    · have hne : g.count ≠ 0 := by
        rw [← hlist, Fifo.receive_eq_some.mp hfifo]
        exact Nat.succ_ne_zero _
      obtain ⟨q', hreceive, href, hsize, helem, hrest⟩ := hw.receive_some hne
      rw [Utils.receive_some hne] at hx
      refine ⟨true, q', _, hreceive, href, ?_, hsize, ?_, fun h => by cases h⟩
      · rw [Utils.receive_some hne]
      · rw [fifoCall, hfifo, item_eq hsize hrest, helem, Option.some.inj hx]
        rfl

/-- So do lists of calls. -/
theorem Refines.runs (h : Refines q g) (cs : List Call) :
    ∃ q' g', Bytes.runs q cs = .ok ((fifoRuns g.len q.size.toNat (contents g) cs).1, q') ∧ Refines q' g' ∧
      g'.len = g.len ∧ q'.size = q.size ∧
      contents g' = (fifoRuns g.len q.size.toNat (contents g) cs).2 := by
  induction cs generalizing q g with
  | nil => exact ⟨q, g, rfl, h, rfl, rfl, rfl⟩
  | cons c cs ih =>
    obtain ⟨result, q₁, g₁, hrun, h₁, hlen, hsize, hcall, -⟩ := h.run c
    obtain ⟨q', g', hruns, h', hlen', hsize', hcontents⟩ := ih h₁
    have hxs : contents g₁ = (fifoCall g.len q.size.toNat (contents g) c).2 := congrArg Prod.snd hcall
    have hout : (result, q₁.mem.data .item) = (fifoCall g.len q.size.toNat (contents g) c).1 :=
      congrArg Prod.fst hcall
    rw [hlen, hsize, hxs] at hruns hcontents
    refine ⟨q', g', ?_, h', hlen'.trans hlen, hsize'.trans hsize, hcontents⟩
    rw [Bytes.runs, hrun]
    simp only [bind, Except.bind, hruns, pure, Except.pure, hout, fifoRuns]

end

/-- The queue holds the elements `xs`, first one at `tail`, and was used only inside its buffer. -/
structure QueueOf (q : CQueueT) (xs : List Element) : Prop where
  count : q.count.toNat = xs.length
  bound : q.count.toNat ≤ q.len.toNat
  head : 0 ≤ q.head ∧ (0 < q.len.toNat → q.head < q.len.toNat)
  tail : 0 ≤ q.tail ∧ (0 < q.len.toNat → q.tail < q.len.toNat)
  distance : (q.tail + q.count.toNat) % q.len.toNat = q.head
  elements : ∀ i (h : i < xs.length),
    xs[i] = q.mem.slice ⟨.buff, (q.tail.toNat + i) % q.len.toNat * q.size.toNat⟩ q.size.toNat
  buffWithin : q.mem.Within .buff (q.len.toNat * q.size.toNat)
  itemWithin : q.mem.Within .item q.size.toNat

theorem Refines.queueOf {q : CQueueT} {g : CQueue Element} (h : Refines q g) : QueueOf q (contents g) where
  count := by rw [h.count, length_contents]
  bound := by
    rw [h.count, h.len]
    exact h.wellFormed.count
  head := by
    rw [h.head, h.len]
    exact ⟨Int.natCast_nonneg _, fun hl => Int.ofNat_lt.mpr (h.wellFormed.head_lt hl)⟩
  tail := by
    rw [h.tail, h.len]
    exact ⟨Int.natCast_nonneg _, fun hl => Int.ofNat_lt.mpr (h.wellFormed.tail hl)⟩
  distance := by
    rw [h.tail, h.count, h.len, h.head, ← h.wellFormed.head]
    rfl
  elements i hi := by
    have hcount : i < g.count := by rwa [length_contents] at hi
    have hle := h.wellFormed.count
    rw [h.tail, h.len, Int.toNat_natCast, ← h.cells _ (Nat.mod_lt _ (by omega))]
    simp [contents]
  buffWithin := h.buffWithin
  itemWithin := h.itemWithin

/-- After any list of calls, none of which C leaves undefined, the queue has answered what a list of at most
`len` elements answers, and holds its elements; a call refused leaves the queue and the item as they were. -/
theorem cqueue_refines_fifo (mem : Mem Obj Byte) (len size : Size) (hlen : len.toNat ≤ intMax)
    (hfits : len.toNat * size.toNat < 0x100000000) (hlog : mem.log = []) (calls : List Call) :
    ∃ q, runs (cqueueInitStatic mem len size) calls = .ok ((fifoRuns len.toNat size.toNat [] calls).1, q) ∧
      q.len = len ∧ q.size = size ∧ QueueOf q (fifoRuns len.toNat size.toNat [] calls).2 ∧
      ∀ c q', Call.run q c = .ok (false, q') → q' = q.withItem c.item := by
  obtain ⟨q, g, hruns, href, hlen', hsize, hcontents⟩ := (refines_init hlen hfits hlog).runs calls
  refine ⟨q, hruns, BitVec.eq_of_toNat_eq (href.len.trans hlen'), hsize, ?_, fun c q' hc => ?_⟩
  · have hq := href.queueOf
    rw [hcontents] at hq
    exact hq
  · obtain ⟨result, q₁, g₁, hrun, -, -, -, -, hsame⟩ := href.run c
    rw [hrun] at hc
    cases hc
    exact hsame rfl

/-- Places for two elements of one byte, and a third element that is sent when there is room again. -/
theorem cqueue_refines_fifo_two :
    let calls : List Call :=
      [.send fun _ => 5, .send fun _ => 6, .send fun _ => 7, .receive fun _ => 0, .send fun _ => 7]
    ∃ q, (runs (cqueueInitStatic ⟨fun _ _ => 0, []⟩ 2 1) calls).map (·.2) = .ok q ∧
      QueueOf q [[6], [7]] := by
  intro calls
  obtain ⟨q, hruns, -, -, hq, -⟩ :=
    cqueue_refines_fifo ⟨fun _ _ => 0, []⟩ 2 1 (by decide) (by decide) rfl calls
  exact ⟨q, by rw [hruns]; rfl, hq⟩

end Bytes

end Rs485.Utils
