import Rs485.Proof.TuFifo

/-!
# A writer and a reader of one FIFO

In every order of their steps, octet by octet, what the reader has is what the writer
gave, without those that are unread (`run_unread`): neither loses an octet of the other,
although they share no lock. A call whose steps are taken one after the other is the
function (`write_alone`, `read_alone`).
-/

namespace Rs485.TuFifo

open Rs485.Framework Rs485.Framework.Ring Rs485.Spec.Pending

section

variable {d ptr i : Nat}

/-- The linear part and the wrapped part are one part of the ring. -/
theorem copyPtr_eq (hptr : ptr < d) (hi : i < d) : copyPtr d ptr i = (ptr + i) % d := by
  rw [copyPtr]
  by_cases hlin : i < d - ptr
  · rw [if_pos hlin, Nat.mod_eq_of_lt (by omega)]
  · rw [if_neg hlin, Nat.mod_eq_sub_mod (by omega), Nat.mod_eq_of_lt (by omega)]
    omega

end

/-- The octets `unread` are in the FIFO, and the calls under way keep out of each other's way: the writer
has copied behind them, and the reader the first of them. -/
structure Unread (s : Shared) (unread : List Byte) : Prop where
  fifo : Represents s.fifo ⟨unread, false⟩
  room : unread.length ≤ s.fifo.depth
  order : s.accepted = s.returned ++ unread
  writer : ∀ c, s.writer = some c → c.wrIdx = s.fifo.wrIdx ∧ unread.length + c.buf.length ≤ s.fifo.depth ∧
    c.copied ≤ c.buf.length ∧
    window s.fifo.depth (s.fifo.buffer.data ()) (s.fifo.rdIdx + unread.length) c.copied = c.buf.take c.copied
  reader : ∀ c, s.reader = some c → c.n ≤ unread.length ∧ c.rdPtr = s.fifo.rdIdx % s.fifo.depth ∧
    c.copied = unread.take c.copied.length ∧ c.copied.length ≤ c.n

namespace Unread

variable {s t : Shared} {unread : List Byte}

theorem of_init (h : shared.init s) : Unread s [] := by
  obtain ⟨buffer, depth, f, hpos, hlog, hf, rfl⟩ := h
  have hb : buffer.Within () depth := fun i hi => by
    rw [hlog] at hi
    cases hi
  exact ⟨(tuFifoConfig_represents hpos hb hf).2, Nat.zero_le _, rfl, nofun, nofun⟩

theorem writeBegin (h : Unread s unread) (data : List Byte) :
    Unread (TuFifo.writeBegin s data) unread := by
  have hmode : ¬ s.fifo.overwritable := by
    rw [h.fifo.mode]
    exact Bool.false_ne_true
  have hrange : writeRange s.fifo data = (data.take (s.fifo.depth - unread.length), s.fifo.wrIdx) := by
    rw [writeRange, if_pos hmode, h.fifo.remaining]
  have hlen := List.length_take_le (s.fifo.depth - unread.length) data
  have hroom := h.room
  rw [TuFifo.writeBegin, hrange]
  refine ⟨h.fifo, h.room, h.order, fun c hc => ?_, h.reader⟩
  cases hc
  exact ⟨rfl, by dsimp only; omega, Nat.zero_le _, rfl⟩

/-- The cell after those that the writer has copied. -/
theorem writePtr (h : Unread s unread) {c : Writing} (hc : s.writer = some c) (hlt : c.copied < c.buf.length) :
    copyPtr s.fifo.depth (idx2ptr s.fifo.depth c.wrIdx) c.copied =
      (s.fifo.rdIdx + unread.length + c.copied) % s.fifo.depth := by
  obtain ⟨hidx, hfit, -, -⟩ := h.writer c hc
  rw [idx2ptr_eq h.fifo.pos, copyPtr_eq (Nat.mod_lt _ h.fifo.pos) (by omega), Nat.mod_add_mod, hidx,
    h.fifo.wr, add_mod_index]

theorem writeStep (h : Unread s unread) {c : Writing} (hc : s.writer = some c) :
    ∃ unread', Unread (TuFifo.writeStep s c) unread' := by
  obtain ⟨hidx, hfit, hle, hcopied⟩ := h.writer c hc
  have hpos := h.fifo.pos
  have hall := h.fifo.cells_all h.room
  rw [TuFifo.writeStep]
  cases hx : c.buf[c.copied]? with
  | some x =>
    -- An octet is copied behind those that are unread.
    obtain ⟨hlt, hx⟩ := List.getElem?_eq_some_iff.mp hx
    dsimp only
    rw [h.writePtr hc hlt]
    let idx := s.fifo.rdIdx + unread.length + c.copied
    have hdata :
        (s.fifo.buffer.store ⟨(), idx % s.fifo.depth⟩ x).data () =
          put s.fifo.depth (s.fifo.buffer.data ()) idx [x] :=
      Mem.store_data_self _ _ _
    have hb : (s.fifo.buffer.store ⟨(), idx % s.fifo.depth⟩ x).Within () s.fifo.depth :=
      Mem.within_store.mpr ⟨fun _ => Nat.mod_lt _ hpos, h.fifo.bounds⟩
    refine ⟨unread, ?_, h.room, h.order, fun c' hc' => ?_, h.reader⟩
    · refine h.fifo.of_window h.room h.fifo.wr ?_ hb
      rw [hdata, window_put_of_le (by omega) (by rw [List.length_singleton]; omega), hall]
    · cases hc'
      refine ⟨hidx, hfit, hlt, ?_⟩
      dsimp only
      rw [hdata]
      have hroom : c.copied + [x].length ≤ s.fifo.depth := by
        rw [List.length_singleton]
        omega
      have happend := window_put_append (g := s.fifo.buffer.data ()) (r := s.fifo.rdIdx + unread.length) hroom
      rw [hcopied, List.length_singleton] at happend
      rw [happend, List.take_add_one, List.getElem?_eq_getElem hlt, hx]
      rfl
  | none =>
    -- The octets copied are published.
    have hcopied' : c.copied = c.buf.length := Nat.le_antisymm hle (List.getElem?_eq_none_iff.mp hx)
    rw [hcopied', List.take_length] at hcopied
    have hlen : (unread ++ c.buf).length ≤ s.fifo.depth := by rw [List.length_append]; omega
    have hwindow : window s.fifo.depth (s.fifo.buffer.data ()) s.fifo.rdIdx (unread ++ c.buf).length =
        unread ++ c.buf := by
      rw [List.length_append, window_add, hall, hcopied]
    have hwr : advanceIndex s.fifo.depth c.wrIdx c.buf.length =
        (s.fifo.rdIdx + (unread ++ c.buf).length) % (2 * s.fifo.depth) := by
      rw [hidx, advanceIndex_eq h.fifo.depth h.fifo.wr_lt (by omega), h.fifo.wr, Nat.mod_add_mod,
        List.length_append, Nat.add_assoc]
    have hfifo := h.fifo.of_window hlen hwr hwindow h.fifo.bounds
    have horder : s.accepted ++ c.buf = s.returned ++ (unread ++ c.buf) := by rw [h.order, List.append_assoc]
    refine ⟨unread ++ c.buf, ?_, ?_, horder, nofun, fun c' hc' => ?_⟩
    · dsimp only
      split
      · exact hfifo
      · rename_i hzero
        rw [List.length_eq_zero_iff.mp (not_not.mp hzero), List.append_nil]
        exact h.fifo
    · dsimp only
      split
      · exact hlen
      · exact hlen
    · obtain ⟨hn, hptr, htake, hcount⟩ := h.reader c' hc'
      have hle' : c'.copied.length ≤ unread.length := Nat.le_trans hcount hn
      refine ⟨?_, ?_, ?_, hcount⟩
      · rw [List.length_append]
        omega
      · dsimp only
        split
        · exact hptr
        · exact hptr
      · rwa [List.take_append_of_le_length hle']

theorem readBegin (h : Unread s unread) (n : Nat) : Unread (TuFifo.readBegin s n) unread := by
  have hroom := h.room
  have hcount : tuFfOverflowCount s.fifo.depth s.fifo.wrIdx s.fifo.rdIdx = unread.length := h.fifo.count
  rw [TuFifo.readBegin, hcount]
  simp only [gt_iff_lt, if_neg (Nat.not_lt.mpr hroom)]
  refine ⟨h.fifo, h.room, h.order, h.writer, fun c hc => ?_⟩
  cases hc
  exact ⟨by dsimp only; omega, idx2ptr_eq h.fifo.pos _, rfl, Nat.zero_le _⟩

theorem readStep (h : Unread s unread) {c : Reading} (hc : s.reader = some c) :
    ∃ unread', Unread (TuFifo.readStep s c) unread' := by
  obtain ⟨hn, hptr, htake, hcount⟩ := h.reader c hc
  have hpos := h.fifo.pos
  have hroom := h.room
  have hall := h.fifo.cells_all h.room
  rw [TuFifo.readStep]
  by_cases hlt : c.copied.length < c.n
  · rw [if_pos hlt]
    have hcell : copyPtr s.fifo.depth c.rdPtr c.copied.length =
        (s.fifo.rdIdx + c.copied.length) % s.fifo.depth := by
      rw [hptr, copyPtr_eq (Nat.mod_lt _ hpos) (by omega), Nat.mod_add_mod]
    dsimp only
    rw [hcell]
    refine ⟨unread, h.fifo.with_buffer rfl ?_, h.room, h.order, h.writer, fun c' hc' => ?_⟩
    · exact Mem.within_touch.mpr ⟨fun _ => Nat.mod_lt _ hpos, h.fifo.bounds⟩
    · cases hc'
      refine ⟨hn, hptr, ?_, ?_⟩
      · have hwindow := take_window (d := s.fifo.depth) (g := s.fifo.buffer.data ()) (r := s.fifo.rdIdx)
          (show c.copied.length + 1 ≤ unread.length by omega)
        have hbefore := take_window (d := s.fifo.depth) (g := s.fifo.buffer.data ()) (r := s.fifo.rdIdx)
          (show c.copied.length ≤ unread.length by omega)
        rw [hall] at hwindow hbefore
        rw [List.length_append, List.length_singleton, hwindow, window_concat, ← hbefore, ← htake]
      · rw [List.length_append]
        exact hlt
  · rw [if_neg hlt]
    have hdone : c.copied = unread.take c.n := by rw [htake, Nat.le_antisymm hcount (Nat.le_of_not_lt hlt)]
    refine ⟨unread.drop c.n, ?_, ?_, ?_, fun c' hc' => ?_, nofun⟩
    · exact h.fifo.advance (by omega) hn
    · rw [List.length_drop]
      dsimp only
      omega
    · dsimp only
      rw [hdone, h.order, List.append_assoc, List.take_append_drop]
    · obtain ⟨hidx, hfit, hle, hcopied⟩ := h.writer c' hc'
      refine ⟨hidx, ?_, hle, ?_⟩
      · rw [List.length_drop]
        dsimp only
        omega
      · rw [← hcopied, List.length_drop]
        refine window_mod ?_
        dsimp only
        rw [advanceIndex_eq h.fifo.depth h.fifo.rd (by omega), add_mod_index]
        congr 1
        omega

/-- Every step keeps what is unread with the calls. -/
theorem step (h : Unread s unread) {a : SharedAct} (hn : shared.next s a = some t) :
    ∃ unread', Unread t unread' := by
  cases a with
  | writeBegin data =>
    simp only [shared] at hn
    split at hn
    · cases hn
      exact ⟨unread, h.writeBegin data⟩
    · cases hn
  | writeStep =>
    obtain ⟨c, hc, rfl⟩ := Option.map_eq_some_iff.mp hn
    exact h.writeStep hc
  | readBegin n =>
    simp only [shared] at hn
    split at hn
    · cases hn
      exact ⟨unread, h.readBegin n⟩
    · cases hn
  | readStep =>
    obtain ⟨c, hc, rfl⟩ := Option.map_eq_some_iff.mp hn
    exact h.readStep hc

end Unread

variable {s t : Shared} {as : List SharedAct}

theorem run_unread (hi : shared.init s) (hr : shared.Run Lts.any s as t) : ∃ unread, Unread t unread :=
  hr.inv (I := fun t => ∃ unread, Unread t unread) (fun _ _ _ ⟨_, h⟩ _ hn => h.step hn) ⟨[], .of_init hi⟩

/-- In every order of the steps of a writer and a reader, the octets that the writer gave are those
that the reader has, and then those that are unread, of which there are as many as the FIFO counts,
and which a reader under way copies from the first on. Nothing is accessed outside the buffer. -/
theorem shared_unread (hi : shared.init s) (hr : shared.Run Lts.any s as t) : ∃ unread,
    t.accepted = t.returned ++ unread ∧ tuFifoCount t.fifo = unread.length ∧
      (∀ c, t.reader = some c → ∃ k ≤ unread.length, c.copied = unread.take k) ∧
      t.fifo.buffer.Within () t.fifo.depth := by
  obtain ⟨unread, h⟩ := run_unread hi hr
  refine ⟨unread, h.order, ?_, fun c hc => ?_, h.fifo.bounds⟩
  · rw [tuFifoCount, h.fifo.count]
    exact Nat.min_eq_left h.room
  · obtain ⟨hn, -, htake, hcount⟩ := h.reader c hc
    exact ⟨c.copied.length, Nat.le_trans hcount hn, htake⟩

/-- A FIFO of two octets, a reader that is slow to return, and a writer that comes too early first. -/
def overlap : List SharedAct :=
  [.writeBegin [1, 2], .writeStep, .writeStep, .writeStep, .readBegin 1, .readStep, .writeBegin [3],
    .readStep, .writeStep, .writeBegin [3], .writeStep, .writeStep]

theorem shared_unread_overlap :
    ∃ unread,
      (shared.exec (fun _ _ => true) ⟨⟨zeros, 2, false, 0, 0⟩, none, none, [], []⟩ overlap).1.accepted =
        [1] ++ unread ∧
      unread.length = 2 := by
  have hr := Lts.Run.any_of_exec shared ⟨⟨zeros, 2, false, 0, 0⟩, none, none, [], []⟩ overlap (by decide)
  obtain ⟨unread, haccepted, hcount, -⟩ := shared_unread ⟨zeros, 2, _, by decide, rfl, rfl, rfl⟩ hr
  refine ⟨unread, haccepted.trans (congrArg (· ++ unread) (by decide)), hcount.symm.trans (by decide)⟩

/-! ## Calls that run alone -/

/-- The buffer after the octets `xs` are copied from `ptr` on. -/
def copied (f : Fifo) (ptr : Nat) (xs : List Byte) : Mem Unit Byte :=
  (f.buffer.storeList ⟨(), ptr⟩ (xs.take (f.depth - ptr))).storeList ⟨(), 0⟩ (xs.drop (f.depth - ptr))

theorem copied_nil (f : Fifo) (ptr : Nat) : copied f ptr [] = f.buffer := by
  rw [copied, List.take_nil, List.drop_nil, Mem.storeList, Mem.storeList]

theorem copied_concat (f : Fifo) (ptr : Nat) (xs : List Byte) (x : Byte) :
    copied f ptr (xs ++ [x]) = (copied f ptr xs).store ⟨(), copyPtr f.depth ptr xs.length⟩ x := by
  rw [copied, copied, copyPtr]
  by_cases hlin : xs.length < f.depth - ptr
  · rw [if_pos hlin, List.take_of_length_le (by rw [List.length_append]; exact hlin),
      List.take_of_length_le (Nat.le_of_lt hlin),
      List.drop_of_length_le (by rw [List.length_append]; exact hlin),
      List.drop_of_length_le (Nat.le_of_lt hlin), Mem.storeList, Mem.storeList, Mem.storeList_concat]
    rfl
  · have hle := Nat.le_of_not_lt hlin
    rw [if_neg hlin, List.take_append_of_le_length hle, List.drop_append_of_le_length hle, Mem.storeList_concat,
      List.length_drop]
    rw [Ptr.add, Nat.zero_add]

theorem ffPushN_copied (f : Fifo) (ptr : Nat) (buf : List Byte) :
    ffPushN f buf ptr = { f with buffer := copied f ptr buf } := by
  rw [ffPushN, copied]
  by_cases hlin : buf.length ≤ f.depth - ptr
  · rw [if_pos hlin, List.take_of_length_le hlin, List.drop_of_length_le hlin, Mem.storeList]
  · rw [if_neg hlin]

/-- A call of `tu_fifo_write_n` whose steps nothing comes between is the function. -/
theorem write_alone (hw : s.writer = none) (data : List Byte) :
    shared.Run Lts.any s (.writeBegin data :: List.replicate ((writeRange s.fifo data).1.length + 1) .writeStep)
      { s with
        fifo := (tuFifoWriteN s.fifo data).2, accepted := s.accepted ++ (writeRange s.fifo data).1 } := by
  generalize hrange : writeRange s.fifo data = range
  obtain ⟨buf, idx⟩ := range
  dsimp only
  -- The state after `k` octets are copied.
  let after (k : Nat) : Shared :=
    { s with
      fifo.buffer := copied s.fifo (idx2ptr s.fifo.depth idx) (buf.take k)
      writer := some ⟨buf, idx, k⟩ }
  have hcopies {k : Nat} (hk : k ≤ buf.length) :
      shared.Run Lts.any s (.writeBegin data :: List.replicate k .writeStep) (after k) := by
    induction k with
    | zero =>
      refine Lts.Run.cons trivial ?_ .nil
      simp only [after, shared, hw, writeBegin, hrange, List.take_zero, copied_nil]
    | succ k ih =>
      rw [List.replicate_succ', ← List.cons_append]
      refine Lts.Run.snoc (ih (Nat.le_of_succ_le hk)) trivial ?_
      have hx : buf[k]? = some buf[k] := List.getElem?_eq_getElem hk
      have hlen : (buf.take k).length = k := List.length_take_of_le (Nat.le_of_succ_le hk)
      have hcopied := copied_concat s.fifo (idx2ptr s.fifo.depth idx) (buf.take k) buf[k]
      rw [List.take_append_getElem, hlen] at hcopied
      simp only [after, shared, Option.map_some, writeStep, hx, hcopied]
  rw [List.replicate_succ', ← List.cons_append]
  refine Lts.Run.snoc (hcopies (Nat.le_refl _)) trivial ?_
  have hend : buf[buf.length]? = none := List.getElem?_eq_none (Nat.le_refl _)
  simp only [after, shared, Option.map_some, writeStep, hend, List.take_length]
  by_cases hnil : buf = []
  · rw [tuFifoWriteN_of_nil (by rw [hrange, hnil]), hnil, copied_nil]
    simp only [hw]
    rfl
  · have hne := mt List.length_eq_zero_iff.mp hnil
    rw [tuFifoWriteN_of_range hrange hne, pushFrom, ffPushN_copied]
    simp only [hw, hne, ne_eq, not_false_eq_true, if_true]

/-- The accesses of a read of `n` octets from `ptr` on. -/
def touched (f : Fifo) (ptr n : Nat) : Mem Unit Byte :=
  (f.buffer.touchN ⟨(), ptr⟩ (min n (f.depth - ptr))).touchN ⟨(), 0⟩ (n - (f.depth - ptr))

/-- The octets that it reads. -/
def pulled (f : Fifo) (ptr n : Nat) : List Byte :=
  f.buffer.slice ⟨(), ptr⟩ (min n (f.depth - ptr)) ++ f.buffer.slice ⟨(), 0⟩ (n - (f.depth - ptr))

theorem touched_zero (f : Fifo) (ptr : Nat) : touched f ptr 0 = f.buffer := by
  rw [touched, Nat.zero_min, Nat.zero_sub, Mem.touchN, Mem.touchN]

theorem pulled_zero (f : Fifo) (ptr : Nat) : pulled f ptr 0 = [] := by
  rw [pulled, Nat.zero_min, Nat.zero_sub]
  rfl

theorem touched_data (f : Fifo) (ptr n : Nat) : (touched f ptr n).data = f.buffer.data := by
  rw [touched, Mem.touchN_data, Mem.touchN_data]

theorem touched_succ (f : Fifo) (ptr n : Nat) :
    touched f ptr (n + 1) = (touched f ptr n).touch ⟨(), copyPtr f.depth ptr n⟩ := by
  rw [touched, touched, copyPtr]
  by_cases hlin : n < f.depth - ptr
  · rw [if_pos hlin, Nat.min_eq_left hlin, Nat.min_eq_left (Nat.le_of_lt hlin), Nat.sub_eq_zero_of_le hlin,
      Nat.sub_eq_zero_of_le (Nat.le_of_lt hlin), Mem.touchN, Mem.touchN, Mem.touchN_succ]
    rfl
  · have hle := Nat.le_of_not_lt hlin
    rw [if_neg hlin, Nat.min_eq_right (Nat.le_succ_of_le hle), Nat.min_eq_right hle, Nat.succ_sub hle,
      Mem.touchN_succ, Ptr.add, Nat.zero_add]

theorem pulled_succ (f : Fifo) (ptr n : Nat) :
    pulled f ptr (n + 1) = pulled f ptr n ++ [f.buffer.data () (copyPtr f.depth ptr n)] := by
  rw [pulled, pulled, copyPtr]
  by_cases hlin : n < f.depth - ptr
  · rw [if_pos hlin, Nat.min_eq_left hlin, Nat.min_eq_left (Nat.le_of_lt hlin), Nat.sub_eq_zero_of_le hlin,
      Nat.sub_eq_zero_of_le (Nat.le_of_lt hlin), Mem.slice_succ]
    have hnil : f.buffer.slice ⟨(), 0⟩ 0 = [] := rfl
    rw [hnil, List.append_nil, List.append_nil]
  · have hle := Nat.le_of_not_lt hlin
    rw [if_neg hlin, Nat.min_eq_right (Nat.le_succ_of_le hle), Nat.min_eq_right hle, Nat.succ_sub hle,
      Mem.slice_succ, Nat.zero_add, List.append_assoc]

@[simp] theorem length_pulled (f : Fifo) (ptr n : Nat) : (pulled f ptr n).length = n := by
  rw [pulled, List.length_append, Mem.length_slice, Mem.length_slice]
  omega

theorem ffPullN_pulled (f : Fifo) (ptr n : Nat) :
    ffPullN f n ptr = (pulled f ptr n, { f with buffer := touched f ptr n }) := by
  rw [ffPullN, pulled, touched]
  by_cases hlin : n ≤ f.depth - ptr
  · rw [if_pos hlin, Nat.min_eq_left hlin, Nat.sub_eq_zero_of_le hlin, Mem.touchN]
    exact Prod.ext (List.append_nil _).symm rfl
  · rw [if_neg hlin, Nat.min_eq_right (Nat.le_of_not_le hlin)]

/-- `tu_fifo_read_n` by the call that begins. -/
theorem tuFifoReadN_pulled (n : Nat) :
    ∃ k ptr, TuFifo.readBegin s n =
      { s with fifo := (TuFifo.readBegin s n).fifo, reader := some ⟨k, ptr, []⟩ } ∧
    tuFifoReadN s.fifo n = (pulled (TuFifo.readBegin s n).fifo ptr k, { (TuFifo.readBegin s n).fifo with
      buffer := touched (TuFifo.readBegin s n).fifo ptr k
      rdIdx := advanceIndex (TuFifo.readBegin s n).fifo.depth (TuFifo.readBegin s n).fifo.rdIdx k }) := by
  refine ⟨_, _, rfl, ?_⟩
  rw [tuFifoReadN, tuFifoPeekNAccessMode, TuFifo.readBegin]
  dsimp only
  generalize tuFfOverflowCount s.fifo.depth s.fifo.wrIdx s.fifo.rdIdx = count
  by_cases hzero : count = 0
  · subst hzero
    simp only [if_true, Nat.not_lt_zero, gt_iff_lt, if_false, Nat.zero_min, Nat.min_zero, touched_zero,
      pulled_zero, List.length_nil]
  rw [if_neg hzero]
  by_cases hover : count > s.fifo.depth
  · have hmin := Nat.min_eq_right
      (show (correctReadIndex s.fifo s.fifo.wrIdx).depth ≤ count from Nat.le_of_lt hover)
    simp only [hover, if_true, ffPullN_pulled, length_pulled, hmin]
  · simp only [hover, if_false, ffPullN_pulled, length_pulled, Nat.min_eq_left (Nat.le_of_not_lt hover)]

/-- A call of `tu_fifo_read_n` whose steps nothing comes between is the function. -/
theorem read_alone (hr : s.reader = none) (n : Nat) :
    shared.Run Lts.any s (.readBegin n :: List.replicate ((tuFifoReadN s.fifo n).1.length + 1) .readStep)
      { s with fifo := (tuFifoReadN s.fifo n).2, returned := s.returned ++ (tuFifoReadN s.fifo n).1 } := by
  obtain ⟨k, ptr, hbegin, hread⟩ := tuFifoReadN_pulled (s := s) n
  generalize (TuFifo.readBegin s n).fifo = f at hbegin hread
  rw [hread]
  dsimp only
  rw [length_pulled]
  -- The state after `i` octets are copied.
  let after (i : Nat) : Shared :=
    { s with
      fifo := { f with buffer := touched f ptr i }
      reader := some ⟨k, ptr, pulled f ptr i⟩ }
  have hcopies {i : Nat} (hi : i ≤ k) : shared.Run Lts.any s (.readBegin n :: List.replicate i .readStep)
      (after i) := by
    induction i with
    | zero =>
      refine Lts.Run.cons trivial ?_ .nil
      simp only [after, shared, hr, hbegin, touched_zero, pulled_zero]
    | succ i ih =>
      rw [List.replicate_succ', ← List.cons_append]
      refine Lts.Run.snoc (ih (Nat.le_of_succ_le hi)) trivial ?_
      simp only [after, shared, Option.map_some, readStep, length_pulled, if_pos (Nat.lt_of_succ_le hi),
        touched_succ, pulled_succ, touched_data]
  rw [List.replicate_succ', ← List.cons_append]
  refine Lts.Run.snoc (hcopies (Nat.le_refl _)) trivial ?_
  simp only [after, shared, Option.map_some, readStep, length_pulled, Nat.lt_irrefl, if_false, hr]

end Rs485.TuFifo
