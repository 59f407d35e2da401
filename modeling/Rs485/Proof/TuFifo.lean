import Mathlib.Algebra.Ring.Nat
import Rs485.Framework.Ring
import Rs485.Impl.TuFifo
import Rs485.Spec.Pending

/-!
# The FIFOs of the USB stack

The operations of `tusb_fifo.c` are those of the queue of pending octets (`call_represents`), with an
index difference that is the number of these octets. So are the results of all calls one after
another (`calls_eq`).
-/

namespace Rs485.TuFifo

open Rs485.Framework Rs485.Framework.Ring Rs485.Spec.Pending

/-! ## Indices -/

section

variable {depth idx offset wrIdx rdIdx n : Nat}

theorem advanceIndex_eq (hd : depth ≤ 0x8000) (hi : idx < 2 * depth) (ho : offset ≤ depth) :
    advanceIndex depth idx offset = (idx + offset) % (2 * depth) := by
  have hspace : ((65535 - (2 * depth - 1) : Int) % 65536).toNat = (65536 - 2 * depth) % 65536 := by omega
  simp only [advanceIndex, hspace]
  by_cases hlt : idx + offset < 2 * depth
  · rw [Nat.mod_eq_of_lt hlt, if_neg (by omega)]
    omega
  · have hmod : (idx + offset) % (2 * depth) = idx + offset - 2 * depth := by
      rw [Nat.mod_eq_sub_mod (by omega), Nat.mod_eq_of_lt (by omega)]
    rw [hmod, if_pos (by omega)]
    omega

theorem idx2ptrLoop_eq (hd : 0 < depth) {fuel : Nat} (hf : idx ≤ fuel) :
    idx2ptrLoop depth fuel idx = idx % depth := by
  induction fuel generalizing idx with
  | zero =>
    obtain rfl : idx = 0 := by omega
    rw [idx2ptrLoop, Nat.zero_mod]
  | succ fuel ih =>
    rw [idx2ptrLoop]
    by_cases hge : idx ≥ depth
    · rw [if_pos hge, ih (by omega), Nat.mod_eq_sub_mod hge]
    · rw [if_neg hge, Nat.mod_eq_of_lt (by omega)]

theorem idx2ptr_eq (hd : 0 < depth) (idx : Nat) : idx2ptr depth idx = idx % depth :=
  idx2ptrLoop_eq hd (Nat.le_refl _)

/-- The difference of the indices. -/
theorem overflowCount_eq (hd : depth ≤ 0x8000) (hr : rdIdx < 2 * depth) (hn : n < 2 * depth) :
    tuFfOverflowCount depth ((rdIdx + n) % (2 * depth)) rdIdx = n := by
  simp only [tuFfOverflowCount]
  by_cases hlt : rdIdx + n < 2 * depth
  · rw [Nat.mod_eq_of_lt hlt, if_pos (by omega)]
    omega
  · rw [Nat.mod_eq_sub_mod (by omega), Nat.mod_eq_of_lt (by omega), if_neg (by omega)]
    omega

/-- An index and a number that is the same index are the same cell. -/
theorem mod_index (i : Nat) : i % (2 * depth) % depth = i % depth := Nat.mod_mod_of_dvd _ (Nat.dvd_mul_left _ _)

theorem add_mod_index (i j : Nat) : (i % (2 * depth) + j) % depth = (i + j) % depth := by
  rw [Nat.add_mod, mod_index, ← Nat.add_mod]

end

/-! ## Copies -/

variable {f : Fifo} {q : Queue Byte} {buf : List Byte} {idx n : Nat}

/-- What is pushed is in the ring, from the index on. -/
theorem ffPushN_data (hd : 0 < f.depth) (hb : buf.length ≤ f.depth) :
    (ffPushN f buf (idx2ptr f.depth idx)).buffer.data () = put f.depth (f.buffer.data ()) idx buf := by
  have hlt := Nat.mod_lt idx hd
  rw [idx2ptr_eq hd, ffPushN]
  by_cases hlin : buf.length ≤ f.depth - idx % f.depth
  · simp only [hlin, if_true]
    rw [← put_mod (Nat.mod_mod idx f.depth)]
    exact storeList_linear (p := ⟨(), idx % f.depth⟩) (show idx % f.depth + buf.length ≤ f.depth by omega)
  · simp only [hlin, if_false]
    rw [← put_mod (Nat.mod_mod idx f.depth)]
    exact storeList_wrapped (by omega) (by omega)

theorem ffPushN_within (hd : 0 < f.depth) (hb : buf.length ≤ f.depth) (hm : f.buffer.Within () f.depth) :
    (ffPushN f buf (idx2ptr f.depth idx)).buffer.Within () f.depth := by
  have hlt := Nat.mod_lt idx hd
  rw [idx2ptr_eq hd, ffPushN]
  by_cases hlin : buf.length ≤ f.depth - idx % f.depth
  · simp only [hlin, if_true]
    exact Mem.within_storeList (fun _ => show idx % f.depth + buf.length ≤ f.depth by omega) hm
  · simp only [hlin, if_false]
    refine Mem.within_storeList (fun _ => ?_) (Mem.within_storeList (fun _ => ?_) hm)
    · rw [List.length_drop]
      dsimp only
      omega
    · rw [List.length_take]
      dsimp only
      omega

/-- What is pulled is the ring's window at the index, and only the accesses change. -/
theorem ffPullN_eq (idx : Nat) (hd : 0 < f.depth) (hn : n ≤ f.depth) (hm : f.buffer.Within () f.depth) :
    ∃ b : Mem Unit Byte,
      ffPullN f n (idx2ptr f.depth idx) =
        (window f.depth (f.buffer.data ()) idx n, { f with buffer := b }) ∧
      b.data = f.buffer.data ∧ b.Within () f.depth := by
  have hlt := Nat.mod_lt idx hd
  rw [idx2ptr_eq hd, ffPullN]
  by_cases hlin : n ≤ f.depth - idx % f.depth
  · rw [if_pos hlin, ← window_mod (Nat.mod_mod idx f.depth)]
    have hin : idx % f.depth + n ≤ f.depth := by omega
    rw [slice_linear (p := ⟨(), idx % f.depth⟩) (d := f.depth) hin]
    exact ⟨_, rfl, Mem.touchN_data _ _ _, Mem.within_touchN (fun _ => hin) hm⟩
  · rw [if_neg hlin, ← window_mod (Nat.mod_mod idx f.depth),
      slice_wrapped (d := f.depth) (by omega) (by omega) (by omega)]
    refine ⟨_, rfl, by rw [Mem.touchN_data, Mem.touchN_data],
      Mem.within_touchN (fun _ => ?_) (Mem.within_touchN (fun _ => ?_) hm)⟩
    · dsimp only
      omega
    · dsimp only
      omega

/-- Two parts of the buffer that are the `n` cells from the index `idx` on. -/
structure Parts (d idx n : Nat) (info : BufferInfo) : Prop where
  total : info.linearLen + info.wrappedLen = n
  linear : info.linearLen = 0 ∨ info.linearPtr = idx % d
  fits : idx % d + info.linearLen ≤ d
  wrapped : info.wrappedLen = 0 ∨ info.wrappedPtr = 0 ∧ idx % d + info.linearLen = d
  small : n ≤ d

namespace Parts

variable {d : Nat} {info : BufferInfo} {m : Mem Unit Byte}

theorem none (hd : 0 < d) : Parts d idx 0 ⟨0, 0, 0, 0⟩ :=
  ⟨rfl, .inl rfl, Nat.le_of_lt (Nat.mod_lt _ hd), .inl rfl, Nat.zero_le _⟩

/-- What is stored in the parts is in the ring. -/
theorem store (h : Parts d idx n info) (hd : 0 < d) (hb : buf.length ≤ n) (hm : m.Within () d) :
    let m' := (m.storeList ⟨(), info.linearPtr⟩ (buf.take info.linearLen)).storeList ⟨(), info.wrappedPtr⟩
      (buf.drop info.linearLen)
    m'.data () = put d (m.data ()) idx buf ∧ m'.Within () d := by
  obtain ⟨htotal, hlinear, hfits, hwrapped, hsmall⟩ := h
  have hlt := Nat.mod_lt idx hd
  intro m'
  rw [← put_mod (Nat.mod_mod idx d)]
  by_cases hle : buf.length ≤ info.linearLen
  · have hm' : m' = m.storeList ⟨(), info.linearPtr⟩ buf := by
      simp only [m', List.take_of_length_le hle, List.drop_of_length_le hle, Mem.storeList]
    rw [hm']
    rcases hlinear with hzero | hptr
    · obtain rfl := List.length_eq_zero_iff.mp (show buf.length = 0 by omega)
      exact ⟨rfl, hm⟩
    · rw [hptr]
      have hin : idx % d + buf.length ≤ d := by omega
      exact ⟨storeList_linear (p := ⟨(), idx % d⟩) hin, Mem.within_storeList (fun _ => hin) hm⟩
  · obtain ⟨hptr', hend⟩ := hwrapped.resolve_left (by omega)
    have hptr := hlinear.resolve_left (by omega)
    simp only [m', hptr, hptr']
    refine ⟨storeList_wrapped hend (by omega),
      Mem.within_storeList (fun _ => ?_) (Mem.within_storeList (fun _ => ?_) hm)⟩
    · rw [List.length_drop]
      dsimp only
      omega
    · rw [List.length_take]
      dsimp only
      omega

/-- The octets in the parts are those in the ring. -/
theorem slice (h : Parts d idx n info) (hd : 0 < d) (hm : m.Within () d) :
    m.slice ⟨(), info.linearPtr⟩ info.linearLen ++ m.slice ⟨(), info.wrappedPtr⟩ info.wrappedLen =
        window d (m.data ()) idx n ∧
      ((m.touchN ⟨(), info.linearPtr⟩ info.linearLen).touchN ⟨(), info.wrappedPtr⟩
        info.wrappedLen).Within () d := by
  obtain ⟨htotal, hlinear, hfits, hwrapped, hsmall⟩ := h
  have hlt := Nat.mod_lt idx hd
  rw [← window_mod (Nat.mod_mod idx d)]
  rcases hwrapped with hzero | ⟨hptr', hend⟩
  · have hn : n = info.linearLen := by omega
    have hnil : m.slice ⟨(), info.wrappedPtr⟩ 0 = [] := rfl
    simp only [hzero, hnil, List.append_nil, Mem.touchN, hn]
    rcases hlinear with hzero' | hptr
    · rw [hzero']
      exact ⟨rfl, hm⟩
    · rw [hptr]
      exact ⟨slice_linear (p := ⟨(), idx % d⟩) hfits, Mem.within_touchN (fun _ => hfits) hm⟩
  · have hptr := hlinear.resolve_left (by omega)
    have hn : info.wrappedLen = n - info.linearLen := by omega
    rw [hptr, hptr', hn]
    refine ⟨slice_wrapped hend (by omega) (by omega),
      Mem.within_touchN (fun _ => ?_) (Mem.within_touchN (fun _ => hfits) hm)⟩
    dsimp only
    omega

end Parts

/-! ## The range of a write -/

theorem writeRange_nil : (writeRange f []).1 = [] := by
  rw [writeRange]
  split
  · rw [List.take_nil]
  split
  · rw [List.drop_nil]
  split
  · rfl
  · rfl

theorem tuFifoWriteN_of_nil {xs : List Byte} (h : (writeRange f xs).1 = []) : tuFifoWriteN f xs = (0, f) := by
  rw [tuFifoWriteN]
  split
  · rfl
  · dsimp only
    rw [h]
    rfl

theorem tuFifoWriteN_of_range {xs : List Byte} (h : writeRange f xs = (buf, idx)) (hb : buf.length ≠ 0) :
    tuFifoWriteN f xs = (buf.length, pushFrom f buf idx) := by
  have hx : xs.length ≠ 0 := by
    intro hx
    rw [List.length_eq_zero_iff.mp hx] at h
    have hnil := writeRange_nil (f := f)
    rw [h] at hnil
    exact hb (List.length_eq_zero_iff.mpr hnil)
  rw [tuFifoWriteN, if_neg hx, h]
  exact if_pos hb

/-! ## The queue in the FIFO -/

/-- A FIFO that holds a queue: the index difference is the number of the pending octets, and the
last of these are in the ring. -/
structure Represents (f : Fifo) (q : Queue Byte) : Prop where
  pos : 0 < f.depth
  depth : f.depth ≤ 0x8000
  rd : f.rdIdx < 2 * f.depth
  short : q.items.length < 2 * f.depth
  wr : f.wrIdx = (f.rdIdx + q.items.length) % (2 * f.depth)
  cells :
    window f.depth (f.buffer.data ()) (f.rdIdx + (q.items.length - f.depth)) (min q.items.length f.depth) =
      last f.depth q.items
  mode : f.overwritable = q.overwritable
  bounds : f.buffer.Within () f.depth

namespace Represents

theorem count (h : Represents f q) : tuFfOverflowCount f.depth f.wrIdx f.rdIdx = q.items.length := by
  rw [h.wr]
  exact overflowCount_eq h.depth h.rd h.short

theorem wr_lt (h : Represents f q) : f.wrIdx < 2 * f.depth := by
  rw [h.wr]
  exact Nat.mod_lt _ (Nat.mul_pos Nat.two_pos h.pos)

/-- The window of the last `k` octets, of as many as are there. -/
theorem cells_last (h : Represents f q) {k : Nat} (hk : k ≤ f.depth) :
    window f.depth (f.buffer.data ()) (f.rdIdx + (q.items.length - k)) (min q.items.length k) =
      last k q.items := by
  have hwindow : (window f.depth (f.buffer.data ()) (f.rdIdx + (q.items.length - f.depth))
      (min q.items.length f.depth)).drop (min q.items.length f.depth - k) = last k q.items := by
    rw [h.cells, ← length_last]
    exact last_last hk
  rw [drop_window (Nat.sub_le _ _)] at hwindow
  rw [← hwindow]
  congr 1
  · omega
  · omega

/-- The octets that are there, where all that are pending are. -/
theorem cells_all (h : Represents f q) (hle : q.items.length ≤ f.depth) :
    window f.depth (f.buffer.data ()) f.rdIdx q.items.length = q.items := by
  have hcells := h.cells
  rwa [Nat.sub_eq_zero_of_le hle, Nat.min_eq_left hle, last_of_le hle] at hcells

/-- Octets that are in the ring from the read index on, all of them there. -/
theorem of_window (h : Represents f q) {xs : List Byte} {b : Mem Unit Byte} {w : Nat}
    (hle : xs.length ≤ f.depth)
    (hwr : w = (f.rdIdx + xs.length) % (2 * f.depth))
    (hcells : window f.depth (b.data ()) f.rdIdx xs.length = xs)
    (hb : b.Within () f.depth) : Represents { f with buffer := b, wrIdx := w } { q with items := xs } := by
  have hpos := h.pos
  refine ⟨h.pos, h.depth, h.rd, ?_, hwr, ?_, h.mode, hb⟩
  · dsimp only
    omega
  · dsimp only
    rwa [Nat.sub_eq_zero_of_le hle, Nat.min_eq_left hle, last_of_le hle]

/-- Only the accesses differ. -/
theorem with_buffer (h : Represents f q) {b : Mem Unit Byte} (hdata : b.data = f.buffer.data)
    (hb : b.Within () f.depth) : Represents { f with buffer := b } q :=
  { h with
    cells := by
      dsimp only
      rw [hdata]
      exact h.cells
    bounds := hb }

/-- The read index moves over `k` of the pending octets. -/
theorem advance (h : Represents f q) {k : Nat} (hd : k ≤ f.depth) (hk : k ≤ q.items.length) :
    Represents { f with rdIdx := advanceIndex f.depth f.rdIdx k } { q with items := q.items.drop k } := by
  have hidx : advanceIndex f.depth f.rdIdx k = (f.rdIdx + k) % (2 * f.depth) := advanceIndex_eq h.depth h.rd hd
  refine ⟨h.pos, h.depth, ?_, ?_, ?_, ?_, h.mode, h.bounds⟩
  · dsimp only
    rw [hidx]
    exact Nat.mod_lt _ (Nat.mul_pos Nat.two_pos h.pos)
  · have := h.short
    rw [List.length_drop]
    dsimp only
    omega
  · rw [hidx, List.length_drop]
    dsimp only
    rw [h.wr, Nat.mod_add_mod]
    congr 1
    omega
  · have hcells := h.cells_last (Nat.min_le_right (q.items.length - k) f.depth)
    have hmin :
        min q.items.length (min (q.items.length - k) f.depth) = min (q.items.length - k) f.depth := by omega
    rw [hmin] at hcells
    dsimp only
    rw [last_drop (by omega), ← hcells, hidx, List.length_drop]
    refine window_mod ?_
    rw [add_mod_index]
    congr 1
    omega

/-- The read index is corrected. -/
theorem correct (h : Represents f q) (hover : f.depth < q.items.length) :
    Represents (correctReadIndex f f.wrIdx) { q with items := last f.depth q.items } := by
  have hpos := h.pos
  have hlen : (last f.depth q.items).length = f.depth := by
    rw [length_last]
    omega
  have hnew : (correctReadIndex f f.wrIdx).rdIdx = (f.rdIdx + (q.items.length - f.depth)) % (2 * f.depth) := by
    have hsum :
        f.rdIdx + q.items.length + f.depth = f.rdIdx + (q.items.length - f.depth) + 2 * f.depth := by omega
    rw [← Nat.add_mod_right, ← hsum, ← Nat.mod_add_mod, ← h.wr, correctReadIndex]
    have hwr := h.wr_lt
    by_cases hge : f.wrIdx ≥ f.depth
    · rw [if_pos hge, Nat.mod_eq_sub_mod (by omega), Nat.mod_eq_of_lt (by omega)]
      dsimp only
      omega
    · rw [if_neg hge, Nat.mod_eq_of_lt (by omega)]
  refine ⟨h.pos, h.depth, ?_, ?_, ?_, ?_, h.mode, h.bounds⟩
  · rw [hnew]
    exact Nat.mod_lt _ (Nat.mul_pos Nat.two_pos hpos)
  · dsimp only [correctReadIndex]
    omega
  · rw [hnew, hlen]
    show f.wrIdx = (_ % (2 * f.depth) + f.depth) % (2 * f.depth)
    rw [h.wr, Nat.mod_add_mod]
    congr 1
    omega
  · have hcells := h.cells
    rw [Nat.min_eq_right (Nat.le_of_lt hover)] at hcells
    rw [hlen, hnew]
    show window f.depth (f.buffer.data ()) (_ + (f.depth - f.depth)) (min f.depth f.depth) = last f.depth _
    rw [Nat.sub_self, Nat.min_self, last_last (Nat.le_refl _), ← hcells]
    exact window_mod (mod_index _)

/-- What a peek leaves and the window that it sees. -/
theorem corrected (h : Represents f q) :
    Represents (if f.depth < q.items.length then correctReadIndex f f.wrIdx else f)
      { q with items := last f.depth q.items } := by
  by_cases hover : f.depth < q.items.length
  · rw [if_pos hover]
    exact h.correct hover
  · rw [if_neg hover, last_of_le (Nat.le_of_not_lt hover)]
    exact h

/-- The write index moves over `k` octets that were stored behind the others. -/
theorem append (h : Represents f q) {buf : List Byte} {b : Mem Unit Byte} (hlen : buf.length ≤ f.depth)
    (hshort : q.items.length + buf.length < 2 * f.depth)
    (hdata : b.data () = put f.depth (f.buffer.data ()) f.wrIdx buf)
    (hb : b.Within () f.depth) :
    Represents { f with buffer := b, wrIdx := advanceIndex f.depth f.wrIdx buf.length }
      { q with items := q.items ++ buf } := by
  have hidx : advanceIndex f.depth f.wrIdx buf.length = (f.wrIdx + buf.length) % (2 * f.depth) :=
    advanceIndex_eq h.depth h.wr_lt hlen
  refine ⟨h.pos, h.depth, h.rd, ?_, ?_, ?_, h.mode, hb⟩
  · rw [List.length_append]
    exact hshort
  · rw [List.length_append]
    dsimp only
    rw [hidx, h.wr, Nat.mod_add_mod, Nat.add_assoc]
  · have hcells := h.cells_last (Nat.sub_le f.depth buf.length)
    have hput :
        put f.depth (f.buffer.data ()) f.wrIdx buf =
          put f.depth (f.buffer.data ()) (f.rdIdx + q.items.length) buf := by
      refine put_mod ?_
      rw [h.wr, mod_index]
    dsimp only
    rw [hdata, hput, List.length_append, last_append hlen, ← hcells]
    have hstart :
        f.rdIdx + (q.items.length + buf.length - f.depth) =
          f.rdIdx + (q.items.length - (f.depth - buf.length)) := by omega
    have hend :
        f.rdIdx + q.items.length =
          f.rdIdx + (q.items.length - (f.depth - buf.length)) +
            min q.items.length (f.depth - buf.length) := by omega
    have hsize :
        min (q.items.length + buf.length) f.depth =
          min q.items.length (f.depth - buf.length) + buf.length := by omega
    rw [hstart, hend, hsize]
    exact window_put_append (by omega)

/-- The ring is stored to from a number `k` behind the read index on, and is full then. -/
theorem refill (h : Represents f q) {buf : List Byte} {b : Mem Unit Byte} {k : Nat}
    (hk : k + buf.length = f.depth)
    (hwr : idx = (f.rdIdx + k) % (2 * f.depth)) (hdata : b.data () = put f.depth (f.buffer.data ()) idx buf)
    (hb : b.Within () f.depth) :
    Represents { f with buffer := b, wrIdx := advanceIndex f.depth idx buf.length }
      { q with items := window f.depth (f.buffer.data ()) f.rdIdx k ++ buf } := by
  have hpos := h.pos
  have hidx : advanceIndex f.depth idx buf.length = (idx + buf.length) % (2 * f.depth) :=
    advanceIndex_eq h.depth (hwr ▸ Nat.mod_lt _ (Nat.mul_pos Nat.two_pos hpos)) (by omega)
  have hlen : (window f.depth (f.buffer.data ()) f.rdIdx k ++ buf).length = f.depth := by
    rw [List.length_append, length_window, hk]
  refine ⟨h.pos, h.depth, h.rd, ?_, ?_, ?_, h.mode, hb⟩
  · dsimp only
    rw [hlen]
    omega
  · dsimp only
    rw [hlen, hidx, hwr, Nat.mod_add_mod, Nat.add_assoc, hk]
  · dsimp only
    rw [hlen, Nat.sub_self, Nat.min_self, last_of_le (Nat.le_of_eq hlen), hdata, hwr, put_mod (mod_index _)]
    have hput := window_put_append (d := f.depth) (g := f.buffer.data ()) (r := f.rdIdx) (Nat.le_of_eq hk)
    rwa [hk] at hput

/-! ## Reads -/

/-- The first octets are pulled. -/
theorem pull (h : Represents f q) (hle : q.items.length ≤ f.depth) (n : Nat) :
    ∃ b : Mem Unit Byte, b.data = f.buffer.data ∧ b.Within () f.depth ∧
      ffPullN f (min n q.items.length) (idx2ptr f.depth f.rdIdx) =
        (q.items.take n, { f with buffer := b }) := by
  obtain ⟨b, hpull, hdata, hb⟩ :=
    ffPullN_eq f.rdIdx h.pos (show min n q.items.length ≤ f.depth by omega) h.bounds
  refine ⟨b, hdata, hb, ?_⟩
  rw [hpull, ← take_window (Nat.min_le_right n _), h.cells_all hle, ← List.take_eq_take_min]

/-- What is there is taken from the FIFO, which is corrected. -/
theorem peekN (h : Represents f q) (n : Nat) :
    ∃ b : Mem Unit Byte, b.data = f.buffer.data ∧ b.Within () f.depth ∧
      tuFifoPeekNAccessMode f n f.wrIdx f.rdIdx = ((last f.depth q.items).take n,
        { (if f.depth < q.items.length then correctReadIndex f f.wrIdx else f) with buffer := b }) := by
  rw [tuFifoPeekNAccessMode, h.count]
  by_cases hzero : q.items.length = 0
  · rw [if_pos hzero, if_neg (by omega), List.length_eq_zero_iff.mp hzero]
    exact ⟨f.buffer, rfl, h.bounds, by simp [last]⟩
  rw [if_neg hzero]
  by_cases hover : f.depth < q.items.length
  · obtain ⟨b, hdata, hb, hpull⟩ := (h.correct hover).pull (length_last ▸ Nat.min_le_right _ _) n
    rw [if_pos hover, if_pos hover]
    refine ⟨b, hdata, hb, ?_⟩
    rwa [length_last, Nat.min_eq_right (Nat.le_of_lt hover)] at hpull
  · have hle := Nat.le_of_not_lt hover
    rw [if_neg hover, if_neg hover, last_of_le hle]
    exact h.pull hle n

/-- The octet that is first. -/
theorem peekLocal (h : Represents f q) :
    ∃ b : Mem Unit Byte, b.data = f.buffer.data ∧ b.Within () f.depth ∧
      ffPeekLocal f f.wrIdx f.rdIdx = ((last f.depth q.items).head?,
        { (if f.depth < q.items.length then correctReadIndex f f.wrIdx else f) with buffer := b }) := by
  rw [ffPeekLocal, h.count]
  by_cases hzero : q.items.length = 0
  · rw [if_pos hzero, if_neg (by omega), List.length_eq_zero_iff.mp hzero]
    exact ⟨f.buffer, rfl, h.bounds, by simp [last]⟩
  rw [if_neg hzero]
  have hpos := h.pos
  have hfirst {g : Fifo} {p : Queue Byte} (hg : Represents g p) (hle : p.items.length ≤ g.depth)
      (hp : p.items.length ≠ 0) :
      some (g.buffer.data () (idx2ptr g.depth g.rdIdx)) = p.items.head? ∧
        (g.buffer.touch ⟨(), idx2ptr g.depth g.rdIdx⟩).Within () g.depth := by
    constructor
    · obtain ⟨n, hn⟩ := Nat.exists_eq_succ_of_ne_zero hp
      rw [← hg.cells_all hle, hn, window_succ, idx2ptr_eq hg.pos]
      rfl
    · rw [idx2ptr_eq hg.pos]
      exact Mem.within_touch.mpr ⟨fun _ => Nat.mod_lt _ hg.pos, hg.bounds⟩
  by_cases hover : f.depth < q.items.length
  · obtain ⟨hhead, hb⟩ := hfirst (h.correct hover) (length_last ▸ Nat.min_le_right _ _)
      (by rw [length_last]; omega)
    rw [if_pos hover, if_pos hover, ← hhead]
    refine ⟨_, ?_, hb, rfl⟩
    rfl
  · have hle := Nat.le_of_not_lt hover
    obtain ⟨hhead, hb⟩ := hfirst h hle hzero
    rw [if_neg hover, if_neg hover, last_of_le hle, ← hhead]
    refine ⟨_, ?_, hb, rfl⟩
    rfl

theorem peeked (h : Represents f q) {b : Mem Unit Byte} (hdata : b.data = f.buffer.data)
    (hb : b.Within () f.depth) :
    Represents { (if f.depth < q.items.length then correctReadIndex f f.wrIdx else f) with buffer := b }
      { q with items := last f.depth q.items } := by
  by_cases hover : f.depth < q.items.length
  · have h' := h.corrected
    rw [if_pos hover] at h' ⊢
    exact h'.with_buffer hdata hb
  · have h' := h.corrected
    rw [if_neg hover] at h' ⊢
    exact h'.with_buffer hdata hb

theorem readN (h : Represents f q) (n : Nat) :
    (tuFifoReadN f n).1 = (q.readN f.depth n).1 ∧ Represents (tuFifoReadN f n).2 (q.readN f.depth n).2 := by
  obtain ⟨b, hdata, hb, hpeek⟩ := h.peekN n
  have hlen : ((last f.depth q.items).take n).length ≤ (last f.depth q.items).length := List.length_take_le' _ _
  have hdepth : (last f.depth q.items).length ≤ f.depth := length_last ▸ Nat.min_le_right _ _
  rw [tuFifoReadN, hpeek, Queue.readN, List.drop_eq_drop_min, ← List.length_take]
  refine ⟨rfl, (h.peeked hdata hb).advance ?_ hlen⟩
  dsimp only
  split
  · exact Nat.le_trans hlen hdepth
  · exact Nat.le_trans hlen hdepth

theorem read (h : Represents f q) :
    (tuFifoRead f).1.toList = (q.readN f.depth 1).1 ∧ Represents (tuFifoRead f).2 (q.readN f.depth 1).2 := by
  obtain ⟨b, hdata, hb, hpeek⟩ := h.peekLocal
  have hpeeked := h.peeked hdata hb
  rw [tuFifoRead, hpeek, Queue.readN]
  generalize hxs : last f.depth q.items = xs at hpeeked
  cases xs with
  | nil => exact ⟨rfl, hpeeked⟩
  | cons x xs =>
    refine ⟨rfl, hpeeked.advance ?_ (Nat.succ_le_succ (Nat.zero_le _))⟩
    dsimp only
    split
    · exact h.pos
    · exact h.pos

theorem discardN (h : Represents f q) (n : Nat) :
    (tuFifoDiscardN f n).1 = (q.discardN f.depth n).1 ∧
    Represents (tuFifoDiscardN f n).2 (q.discardN f.depth n).2 := by
  rw [tuFifoDiscardN, tuFifoCount, h.count, Queue.discardN, Nat.min_comm q.items.length]
  exact ⟨rfl, h.advance (by omega) (by omega)⟩

/-! ## Writes -/

theorem remaining (h : Represents f q) :
    tuFfRemainingLocal f.depth f.wrIdx f.rdIdx = f.depth - q.items.length := by
  rw [tuFfRemainingLocal, h.count]
  split <;> omega

theorem pushFrom_append (h : Represents f q) (hlen : buf.length ≤ f.depth)
    (hshort : q.items.length + buf.length < 2 * f.depth) :
    Represents (pushFrom f buf f.wrIdx) { q with items := q.items ++ buf } :=
  h.append hlen hshort (ffPushN_data h.pos hlen) (ffPushN_within h.pos hlen h.bounds)

theorem pushFrom_refill (h : Represents f q) {k : Nat} (hk : k + buf.length = f.depth)
    (hidx : idx = (f.rdIdx + k) % (2 * f.depth)) :
    Represents (pushFrom f buf idx) { q with items := window f.depth (f.buffer.data ()) f.rdIdx k ++ buf } :=
  h.refill hk hidx (ffPushN_data h.pos (by omega)) (ffPushN_within h.pos (by omega) h.bounds)

/-- What lies from the read index on where the FIFO has overflowed. -/
theorem window_again (h : Represents f q) {k : Nat} (hk : k + f.depth ≤ q.items.length) :
    window f.depth (f.buffer.data ()) f.rdIdx k = (q.items.drop f.depth).take k := by
  have hshort := h.short
  have hcells := congrArg (List.drop (2 * f.depth - q.items.length)) h.cells
  rw [Nat.min_eq_right (by omega), drop_window (by omega), last, List.drop_drop] at hcells
  have htake := congrArg (List.take k) hcells
  rw [take_window (by omega)] at htake
  rw [show q.items.length - f.depth + (2 * f.depth - q.items.length) = f.depth by omega] at htake
  rw [← htake]
  refine window_mod ?_
  rw [Nat.add_assoc, show q.items.length - f.depth + (2 * f.depth - q.items.length) = f.depth by omega,
    Nat.add_mod_right]

/-- A write of what fits behind the others. -/
theorem append_of_range (h : Represents f q) {xs : List Byte} (hr : writeRange f xs = (buf, f.wrIdx))
    (hlen : buf.length ≤ f.depth)
    (hshort : q.items.length + buf.length < 2 * f.depth) :
    (tuFifoWriteN f xs).1 = buf.length ∧
    Represents (tuFifoWriteN f xs).2 { q with items := q.items ++ buf } := by
  by_cases hnil : buf = []
  · rw [tuFifoWriteN_of_nil (by rw [hr, hnil]), hnil, List.append_nil]
    exact ⟨rfl, h⟩
  · rw [tuFifoWriteN_of_range hr (mt List.length_eq_zero_iff.mp hnil)]
    exact ⟨rfl, h.pushFrom_append hlen hshort⟩

theorem writeN (h : Represents f q) (xs : List Byte) :
    (tuFifoWriteN f xs).1 = (q.writeN f.depth xs).1 ∧
    Represents (tuFifoWriteN f xs).2 (q.writeN f.depth xs).2 := by
  have hpos := h.pos
  have hshort := h.short
  by_cases how : q.overwritable
  · have hmode : ¬ ¬ f.overwritable := by rw [h.mode, how]; simp
    rw [Queue.writeN, if_neg (not_not.mpr how)]
    by_cases hfull : f.depth ≤ xs.length
    · -- the last octets fill the ring
      have hlen : (xs.drop (xs.length - f.depth)).length = f.depth := by
        rw [List.length_drop]
        omega
      have hrange : writeRange f xs = (xs.drop (xs.length - f.depth), f.rdIdx) := by
        rw [writeRange, if_neg hmode, if_pos hfull]
      have hrefill := h.pushFrom_refill (show 0 + (xs.drop (xs.length - f.depth)).length = f.depth by omega)
        (Nat.mod_eq_of_lt h.rd).symm
      rw [tuFifoWriteN_of_range hrange (by omega), if_pos hfull]
      exact ⟨hlen, hrefill⟩
    rw [if_neg hfull]
    by_cases hdouble : 2 * f.depth ≤ q.items.length + xs.length
    · have hrange : writeRange f xs = (xs, advanceIndex f.depth f.rdIdx (f.depth - xs.length)) := by
        rw [writeRange, if_neg hmode, if_neg hfull, h.count, if_pos hdouble]
      rw [tuFifoWriteN_of_range hrange (by omega), if_pos hdouble]
      have hrefill := h.pushFrom_refill (show f.depth - xs.length + xs.length = f.depth by omega)
        (advanceIndex_eq h.depth h.rd (Nat.sub_le _ _))
      rw [h.window_again (by omega)] at hrefill
      exact ⟨rfl, hrefill⟩
    · have hrange : writeRange f xs = (xs, f.wrIdx) := by
        rw [writeRange, if_neg hmode, if_neg hfull, h.count, if_neg hdouble]
      rw [if_neg hdouble]
      exact h.append_of_range hrange (by omega) (by omega)
  · have hmode : ¬ f.overwritable := by rw [h.mode]; exact how
    have hrange : writeRange f xs = (xs.take (f.depth - q.items.length), f.wrIdx) := by
      rw [writeRange, if_pos hmode, h.remaining]
    have hlen : (xs.take (f.depth - q.items.length)).length ≤ f.depth - q.items.length :=
      List.length_take_le _ _
    rw [Queue.writeN, if_pos how, Queue.fill]
    exact h.append_of_range hrange (by omega) (by omega)

theorem write (h : Represents f q) (x : Byte) :
    (tuFifoWrite f x).1 = (q.write f.depth x).1 ∧ Represents (tuFifoWrite f x).2 (q.write f.depth x).2 := by
  have hfull : (tuFifoFull f = true ∧ ¬ f.overwritable) ↔ (f.depth ≤ q.items.length ∧ ¬ q.overwritable) := by
    rw [tuFifoFull, h.count, h.mode, decide_eq_true_iff]
  rw [tuFifoWrite, Queue.write]
  by_cases hno : f.depth ≤ q.items.length ∧ ¬ q.overwritable
  · rw [if_pos (hfull.mpr hno), if_pos hno]
    exact ⟨rfl, h⟩
  rw [if_neg (mt hfull.mp hno), if_neg hno]
  refine ⟨rfl, ?_⟩
  have hpos := h.pos
  have hshort := h.short
  have hstore :
      (f.buffer.store ⟨(), idx2ptr f.depth f.wrIdx⟩ x).data () =
        put f.depth (f.buffer.data ()) f.wrIdx [x] := by
    rw [idx2ptr_eq hpos]
    exact Mem.store_data_self _ _ _
  have hb : (f.buffer.store ⟨(), idx2ptr f.depth f.wrIdx⟩ x).Within () f.depth := by
    rw [idx2ptr_eq hpos]
    exact Mem.within_store.mpr ⟨fun _ => Nat.mod_lt _ hpos, h.bounds⟩
  by_cases hwrap : q.items.length + 1 = 2 * f.depth
  · -- the write index comes to the read index
    have hidx : advanceIndex f.depth f.wrIdx 1 = f.rdIdx := by
      rw [advanceIndex_eq h.depth h.wr_lt hpos, h.wr, Nat.mod_add_mod, Nat.add_assoc, hwrap, Nat.add_mod_right,
        Nat.mod_eq_of_lt h.rd]
    dsimp only
    rw [hidx, if_pos hwrap]
    refine ⟨hpos, h.depth, h.rd, Nat.mul_pos Nat.two_pos hpos, ?_, ?_, h.mode, hb⟩
    · exact (Nat.mod_eq_of_lt h.rd).symm
    · simp [last]
  · rw [if_neg hwrap]
    exact h.append (show [x].length ≤ f.depth from hpos) (by rw [List.length_singleton]; omega) hstore hb

/-! ## Access by others -/

/-- Where the octets behind the pending ones are. -/
theorem wrPtr (h : Represents f q) (hle : q.items.length ≤ f.depth) :
    idx2ptr f.depth f.wrIdx =
      if f.rdIdx % f.depth + q.items.length < f.depth then f.rdIdx % f.depth + q.items.length
      else f.rdIdx % f.depth + q.items.length - f.depth := by
  have hlt := Nat.mod_lt f.rdIdx h.pos
  rw [idx2ptr_eq h.pos, h.wr, mod_index, ← Nat.mod_add_mod]
  split
  · exact Nat.mod_eq_of_lt ‹_›
  · rw [Nat.mod_eq_sub_mod (by omega), Nat.mod_eq_of_lt (by omega)]

/-- The two parts that are given for writing are the room behind the octets. -/
theorem writeInfo (h : Represents f q) :
    Parts f.depth f.wrIdx (f.depth - q.items.length) (tuFifoGetWriteInfo f) := by
  have hpos := h.pos
  have hlt := Nat.mod_lt f.rdIdx hpos
  rw [tuFifoGetWriteInfo, h.remaining]
  by_cases hfull : f.depth - q.items.length = 0
  · rw [if_pos hfull, hfull]
    exact .none hpos
  have hptr := h.wrPtr (by omega)
  rw [if_neg hfull, idx2ptr_eq hpos f.rdIdx]
  rw [idx2ptr_eq hpos] at hptr ⊢
  dsimp only
  by_cases hwrap : f.rdIdx % f.depth + q.items.length < f.depth
  · rw [if_pos hwrap] at hptr
    rw [if_neg (by omega)]
    exact ⟨by dsimp only; omega, .inr rfl, by dsimp only; omega, .inr ⟨rfl, by dsimp only; omega⟩,
      Nat.sub_le _ _⟩
  · rw [if_neg hwrap] at hptr
    rw [if_pos (by omega)]
    exact ⟨by dsimp only; omega, .inr rfl, by dsimp only; omega, .inl rfl, Nat.sub_le _ _⟩

theorem fillParts (h : Represents f q) (xs : List Byte) :
    (TuFifo.fillParts f xs).1 = (q.fill f.depth xs).1 ∧
    Represents (TuFifo.fillParts f xs).2 (q.fill f.depth xs).2 := by
  have hparts := h.writeInfo
  have hpos := h.pos
  have hshort := h.short
  rw [TuFifo.fillParts, Queue.fill]
  dsimp only
  rw [hparts.total]
  generalize hbuf : xs.take (f.depth - q.items.length) = buf
  have hlen : buf.length ≤ f.depth - q.items.length := by
    rw [← hbuf]
    exact List.length_take_le _ _
  obtain ⟨hdata, hb⟩ := hparts.store hpos hlen h.bounds
  exact ⟨rfl, h.append (by omega) (by omega) hdata hb⟩

/-- The two parts that are given for reading are the octets. -/
theorem readParts (h : Represents f q) (hle : q.items.length ≤ f.depth) :
    Parts f.depth f.rdIdx q.items.length (TuFifo.readParts f q.items.length) := by
  have hpos := h.pos
  have hlt := Nat.mod_lt f.rdIdx hpos
  rw [TuFifo.readParts]
  by_cases hzero : q.items.length = 0
  · rw [if_pos hzero, hzero]
    exact .none hpos
  have hptr := h.wrPtr hle
  rw [if_neg hzero, idx2ptr_eq hpos f.rdIdx]
  rw [idx2ptr_eq hpos] at hptr ⊢
  dsimp only
  by_cases hwrap : f.rdIdx % f.depth + q.items.length < f.depth
  · rw [if_pos hwrap] at hptr
    rw [if_pos (by omega)]
    exact ⟨rfl, .inr rfl, by dsimp only; omega, .inl rfl, hle⟩
  · rw [if_neg hwrap] at hptr
    rw [if_neg (by omega)]
    exact ⟨by dsimp only; omega, .inr rfl, by dsimp only; omega, .inr ⟨rfl, by dsimp only; omega⟩, hle⟩

/-- They are those of the corrected FIFO. -/
theorem readInfo (h : Represents f q) : ∃ f', Represents f' { q with items := last f.depth q.items } ∧
    f'.depth = f.depth ∧
    tuFifoGetReadInfo f = (TuFifo.readParts f' (last f.depth q.items).length, f') := by
  rw [tuFifoGetReadInfo, h.count]
  by_cases hover : f.depth < q.items.length
  · refine ⟨_, h.correct hover, rfl, ?_⟩
    rw [if_pos hover, length_last, Nat.min_eq_right (Nat.le_of_lt hover)]
    rfl
  · rw [if_neg hover, last_of_le (Nat.le_of_not_lt hover)]
    exact ⟨f, h, rfl, rfl⟩

theorem drainParts (h : Represents f q) (n : Nat) :
    (TuFifo.drainParts f n).1 = (q.readN f.depth n).1 ∧
    Represents (TuFifo.drainParts f n).2 (q.readN f.depth n).2 := by
  obtain ⟨f', h', hdepth, hinfo⟩ := h.readInfo
  have hle : (last f.depth q.items).length ≤ f'.depth := by
    rw [length_last, hdepth]
    exact Nat.min_le_right _ _
  obtain ⟨hslice, hb⟩ := (h'.readParts hle).slice h'.pos h'.bounds
  have hall : window f'.depth (f'.buffer.data ()) f'.rdIdx (last f.depth q.items).length =
    last f.depth q.items := h'.cells_all hle
  have hlen : ((last f.depth q.items).take n).length ≤ (last f.depth q.items).length := List.length_take_le' _ _
  rw [TuFifo.drainParts, hinfo]
  dsimp only at hslice ⊢
  rw [hslice, hall, Queue.readN, List.drop_eq_drop_min, ← List.length_take]
  let info := TuFifo.readParts f' (last f.depth q.items).length
  have hdata :
      ((f'.buffer.touchN ⟨(), info.linearPtr⟩ info.linearLen).touchN ⟨(), info.wrappedPtr⟩
        info.wrappedLen).data = f'.buffer.data := by
    rw [Mem.touchN_data, Mem.touchN_data]
  exact ⟨rfl, (h'.with_buffer hdata hb).advance (Nat.le_trans hlen hle) hlen⟩

end Represents

/-! ## Calls -/

/-- What a call gives and leaves. -/
def call (f : Fifo) : Op Byte → Result Byte × Fifo
  | .clear => (.done, tuFifoClear f)
  | .setOverwritable b => (.done, tuFifoSetOverwritable f b)
  | .empty => (.flag (tuFifoEmpty f), f)
  | .full => (.flag (tuFifoFull f), f)
  | .count => (.number (tuFifoCount f), f)
  | .remaining => (.number (tuFifoRemaining f), f)
  | .writeN xs => (.number (tuFifoWriteN f xs).1, (tuFifoWriteN f xs).2)
  | .readN n => (.items (tuFifoReadN f n).1, (tuFifoReadN f n).2)
  | .peekN n => (.items (tuFifoPeekN f n).1, (tuFifoPeekN f n).2)
  | .discardN n => (.number (tuFifoDiscardN f n).1, (tuFifoDiscardN f n).2)
  | .write x => (.flag (tuFifoWrite f x).1, (tuFifoWrite f x).2)
  | .read => (.items (tuFifoRead f).1.toList, (tuFifoRead f).2)
  | .peek => (.items (tuFifoPeek f).1.toList, (tuFifoPeek f).2)
  | .fill xs => (.number (fillParts f xs).1, (fillParts f xs).2)
  | .drain n => (.items (drainParts f n).1, (drainParts f n).2)

/-- The results of calls one after the other, and what they leave. -/
def calls : Fifo → List (Op Byte) → List (Result Byte) × Fifo
  | f, [] => ([], f)
  | f, op :: ops =>
    let (r, f) := call f op
    let (rs, f) := calls f ops
    (r :: rs, f)

namespace Represents

theorem clear (h : Represents f q) : Represents (tuFifoClear f) { q with items := [] } :=
  ⟨h.pos, h.depth, Nat.mul_pos Nat.two_pos h.pos, Nat.mul_pos Nat.two_pos h.pos,
    (Nat.zero_mod _).symm, by simp [last],
    h.mode, h.bounds⟩

theorem setOverwritable (h : Represents f q) (b : Bool) :
    Represents (tuFifoSetOverwritable f b) { q with overwritable := b } := by
  rw [tuFifoSetOverwritable]
  by_cases hsame : f.overwritable = b
  · rw [if_pos hsame]
    exact { h with mode := hsame }
  · rw [if_neg hsame]
    exact { h with mode := rfl }

theorem empty (h : Represents f q) : tuFifoEmpty f = q.items.isEmpty := by
  have hcount := h.count
  have hrd := h.rd
  rw [Bool.eq_iff_iff, tuFifoEmpty, beq_iff_eq, List.isEmpty_iff, ← List.length_eq_zero_iff]
  constructor
  · intro heq
    rw [← hcount, heq, tuFfOverflowCount]
    simp
  · intro hzero
    rw [h.wr, hzero]
    exact Nat.mod_eq_of_lt hrd

/-- A call gives what it gives on the queue, and leaves the FIFO with what it leaves of the queue. -/
theorem call (h : Represents f q) (op : Op Byte) :
    (TuFifo.call f op).1 = (q.call f.depth op).1 ∧ Represents (TuFifo.call f op).2 (q.call f.depth op).2 := by
  cases op with
  | clear => exact ⟨rfl, h.clear⟩
  | setOverwritable b => exact ⟨rfl, h.setOverwritable b⟩
  | empty => exact ⟨congrArg _ h.empty, h⟩
  | full =>
    refine ⟨congrArg Result.flag ?_, h⟩
    rw [tuFifoFull, h.count]
  | count =>
    refine ⟨congrArg Result.number ?_, h⟩
    rw [tuFifoCount, h.count, Nat.min_comm]
  | remaining => exact ⟨congrArg _ h.remaining, h⟩
  | writeN xs => exact (h.writeN xs).imp_left (congrArg _)
  | readN n => exact (h.readN n).imp_left (congrArg _)
  | peekN n =>
    obtain ⟨b, hdata, hb, hpeek⟩ := h.peekN n
    rw [TuFifo.call, tuFifoPeekN, hpeek]
    exact ⟨rfl, h.peeked hdata hb⟩
  | discardN n => exact (h.discardN n).imp_left (congrArg _)
  | write x => exact (h.write x).imp_left (congrArg _)
  | read => exact h.read.imp_left (congrArg _)
  | peek =>
    obtain ⟨b, hdata, hb, hpeek⟩ := h.peekLocal
    rw [TuFifo.call, tuFifoPeek, hpeek, Queue.call, Queue.peekN]
    refine ⟨congrArg Result.items ?_, h.peeked hdata hb⟩
    cases last f.depth q.items <;> rfl
  | fill xs => exact (h.fillParts xs).imp_left (congrArg _)
  | drain n => exact (h.drainParts n).imp_left (congrArg _)

end Represents

theorem depth_ffPullN (n rdPtr : Nat) : (ffPullN f n rdPtr).2.depth = f.depth := by
  rw [ffPullN]
  split <;> rfl

theorem depth_peekN (n wrIdx rdIdx : Nat) : (tuFifoPeekNAccessMode f n wrIdx rdIdx).2.depth = f.depth := by
  rw [tuFifoPeekNAccessMode]
  split
  · rfl
  split
  · exact depth_ffPullN _ _
  · exact depth_ffPullN _ _

theorem depth_peekLocal (wrIdx rdIdx : Nat) : (ffPeekLocal f wrIdx rdIdx).2.depth = f.depth := by
  rw [ffPeekLocal]
  split
  · rfl
  dsimp only
  split <;> rfl

theorem depth_call (op : Op Byte) : (call f op).2.depth = f.depth := by
  cases op with
  | setOverwritable b =>
    rw [call, tuFifoSetOverwritable]
    split <;> rfl
  | writeN xs =>
    rw [call, tuFifoWriteN]
    split
    · rfl
    dsimp only
    split <;> rfl
  | readN n => exact depth_peekN _ _ _
  | peekN n => exact depth_peekN _ _ _
  | write x =>
    rw [call, tuFifoWrite]
    split <;> rfl
  | read =>
    have h := depth_peekLocal (f := f) f.wrIdx f.rdIdx
    rw [call, tuFifoRead]
    split
    · rename_i heq
      rwa [heq] at h
    · rename_i heq
      rwa [heq] at h
  | peek => exact depth_peekLocal _ _
  | drain n =>
    rw [call, drainParts, tuFifoGetReadInfo]
    dsimp only
    split <;> rfl
  | _ => rfl

theorem depth_calls (ops : List (Op Byte)) : (calls f ops).2.depth = f.depth := by
  induction ops generalizing f with
  | nil => rfl
  | cons op ops ih => exact ih.trans (depth_call op)

/-- Whatever is called, the results are those of the queue. -/
theorem Represents.calls (h : Represents f q) (ops : List (Op Byte)) :
    (TuFifo.calls f ops).1 = (q.calls f.depth ops).1 ∧
    Represents (TuFifo.calls f ops).2 (q.calls f.depth ops).2 := by
  induction ops generalizing f q with
  | nil => exact ⟨rfl, h⟩
  | cons op ops ih =>
    obtain ⟨hresult, hnext⟩ := h.call op
    have hrest := ih hnext
    rw [depth_call] at hrest
    exact ⟨congrArg₂ List.cons hresult hrest.1, hrest.2⟩

theorem tuFifoConfig_represents {buffer : Mem Unit Byte} {depth : Nat} {overwritable : Bool} (hpos : 0 < depth)
    (hb : buffer.Within () depth) (hf : tuFifoConfig buffer depth overwritable = some f) :
    f.depth = depth ∧ Represents f ⟨[], overwritable⟩ := by
  rw [tuFifoConfig] at hf
  split at hf
  · cases hf
  · cases hf
    exact ⟨rfl, hpos, by dsimp only; omega, Nat.mul_pos Nat.two_pos hpos, Nat.mul_pos Nat.two_pos hpos,
      (Nat.zero_mod _).symm, by simp [last], rfl, hb⟩

/-- A FIFO of any depth from 1 that `tu_fifo_config` takes, overwritable or not, is a queue of pending octets for
every sequence of calls, and no call leaves the buffer. -/
theorem calls_eq {buffer : Mem Unit Byte} {depth : Nat} {overwritable : Bool} (hpos : 0 < depth)
    (hlog : buffer.log = []) (hf : tuFifoConfig buffer depth overwritable = some f) (ops : List (Op Byte)) :
    (calls f ops).1 = ((Queue.mk [] overwritable).calls depth ops).1 ∧
    (calls f ops).2.buffer.Within () depth := by
  have hb : buffer.Within () depth := fun i hi => by
    rw [hlog] at hi
    cases hi
  obtain ⟨rfl, h⟩ := tuFifoConfig_represents hpos hb hf
  obtain ⟨hresults, hend⟩ := h.calls ops
  have hbounds := hend.bounds
  rw [depth_calls] at hbounds
  exact ⟨hresults, hbounds⟩

/-- A buffer of zeros. -/
def zeros : Mem Unit Byte := ⟨fun _ _ => 0, []⟩

/-- An overwritable FIFO of four octets that overflows twice: 7 is not among the last octets, and is
read in the place of 9. -/
theorem calls_eq_overflow :
    (calls ⟨zeros, 4, true, 0, 0⟩
      [.writeN [1, 2], .writeN [3, 4], .writeN [7, 8, 9], .writeN [5, 6], .readN 4]).1 =
      [.number 2, .number 2, .number 3, .number 2, .items [7, 8, 5, 6]] :=
  (calls_eq (show 0 < 4 by decide) (show zeros.log = [] from rfl)
    (show tuFifoConfig zeros 4 true = some _ from rfl) _).1.trans (by decide)

/-! ## Overflow -/

section

variable {d : Nat} (how : q.overwritable)
include how

/-- A write of many octets leaves a full ring full. -/
theorem writeN_length (hd : 0 < d) (hshort : q.items.length < 2 * d) (xs : List Byte) :
    (q.writeN d xs).2.overwritable ∧ (q.writeN d xs).2.items.length < 2 * d ∧
      min d (q.writeN d xs).2.items.length = min d (q.items.length + xs.length) := by
  rw [Queue.writeN, if_neg (not_not.mpr how)]
  by_cases hfull : d ≤ xs.length
  · rw [if_pos hfull]
    refine ⟨how, ?_, ?_⟩
    · rw [length_last]
      omega
    · rw [length_last]
      omega
  rw [if_neg hfull]
  by_cases hdouble : 2 * d ≤ q.items.length + xs.length
  · have hlen : ((q.items.drop d).take (d - xs.length)).length = d - xs.length := by
      rw [List.length_take, List.length_drop]
      omega
    rw [if_pos hdouble]
    refine ⟨how, ?_, ?_⟩
    · rw [List.length_append, hlen]
      omega
    · rw [List.length_append, hlen]
      omega
  · rw [if_neg hdouble]
    refine ⟨how, ?_, ?_⟩
    · rw [List.length_append]
      omega
    · rw [List.length_append]

theorem writeNs_length (hd : 0 < d) (hshort : q.items.length < 2 * d) (xss : List (List Byte)) :
    min d (q.calls d (xss.map .writeN)).2.items.length =
      min d (q.items.length + (xss.map List.length).sum) := by
  induction xss generalizing q with
  | nil => rfl
  | cons xs xss ih =>
    obtain ⟨how', hshort', hlen⟩ := writeN_length how hd hshort xs
    have hrest := ih how' hshort'
    rw [List.map_cons, List.map_cons, List.sum_cons, ← Nat.add_assoc]
    show min d ((q.writeN d xs).2.calls d (xss.map .writeN)).2.items.length = _
    rw [hrest]
    omega

/-- A write of one octet empties it when the indices meet. -/
theorem writes_length (hd : 0 < d) (hshort : q.items.length < 2 * d) (xs : List Byte) :
    (q.calls d (xs.map .write)).2.items.length = (q.items.length + xs.length) % (2 * d) := by
  induction xs generalizing q with
  | nil => exact (Nat.mod_eq_of_lt hshort).symm
  | cons x xs ih =>
    rw [List.map_cons]
    show ((q.write d x).2.calls d (xs.map .write)).2.items.length = _
    rw [Queue.write, if_neg fun h => h.2 how]
    by_cases hwrap : q.items.length + 1 = 2 * d
    · have hrest := ih (q := ⟨[], q.overwritable⟩) how (Nat.mul_pos Nat.two_pos hd)
      rw [if_pos hwrap, hrest, List.length_cons, Nat.add_comm xs.length, ← Nat.add_assoc, hwrap,
        Nat.add_mod_left, List.length_nil, Nat.zero_add]
    · have hlen : (q.items ++ [x]).length = q.items.length + 1 := List.length_append
      have hrest := ih (q := ⟨q.items ++ [x], q.overwritable⟩) how (by dsimp only; omega)
      rw [if_neg hwrap, hrest, hlen, List.length_cons, Nat.add_assoc, Nat.add_comm 1]

end

/-- An overwritable FIFO that is only written to counts the octets of all calls of `tu_fifo_write_n`
up to its depth; but after calls of `tu_fifo_write` it counts those since the last multiple of twice
its depth, up to its depth. -/
theorem count_of_writes {buffer : Mem Unit Byte} {depth : Nat} (hpos : 0 < depth) (hlog : buffer.log = [])
    (hf : tuFifoConfig buffer depth true = some f) :
    (∀ xss : List (List Byte),
      tuFifoCount (calls f (xss.map .writeN)).2 = min depth (xss.map List.length).sum) ∧
    ∀ xs : List Byte, tuFifoCount (calls f (xs.map .write)).2 = min depth (xs.length % (2 * depth)) := by
  have hb : buffer.Within () depth := fun i hi => by
    rw [hlog] at hi
    cases hi
  obtain ⟨rfl, h⟩ := tuFifoConfig_represents hpos hb hf
  have hshort := h.short
  have hcount (ops : List (Op Byte)) :
      tuFifoCount (calls f ops).2 = min f.depth ((Queue.mk [] true).calls f.depth ops).2.items.length := by
    have hend := (h.calls ops).2
    rw [tuFifoCount, hend.count, depth_calls, Nat.min_comm]
  constructor
  · intro xss
    rw [hcount, writeNs_length rfl hpos hshort, List.length_nil, Nat.zero_add]
  · intro xs
    rw [hcount, writes_length rfl hpos hshort, List.length_nil, Nat.zero_add]

/-- Four octets, one at a time, empty a FIFO of two. -/
theorem count_of_writes_four :
    tuFifoCount (calls ⟨zeros, 2, true, 0, 0⟩ ([1, 2, 3, 4].map .write)).2 = 0 :=
  (count_of_writes (show 0 < 2 by decide) (show zeros.log = [] from rfl)
    (show tuFifoConfig zeros 2 true = some _ from rfl)).2 [1, 2, 3, 4]

end Rs485.TuFifo
