import Rs485.Impl.Modbus.Rtu
import Rs485.Proof.Modbus.Store

/-!
# Frames in the buffer

`usMBCRC16` is the CRC of the bytes it walks over (`call_usMBCRC16`), so that
`eMBRTUReceive` accepts a buffer by the bytes in it alone, and what
`eMBRTUSend` leaves in the buffer is the address, the PDU and their CRC.
-/

namespace Rs485.Modbus

open Rs485.Framework

/-! ## The CRC -/

theorem call_crcLoop (n : Nat) (p : Ptr Obj) (c : UCHAR × UCHAR) (s : Store) :
    call (crcLoop n p c) s =
      ((s.mem.slice p n).foldl crcStep c, { s with mem := s.mem.touchN p n }) := by
  induction n generalizing p c s with
  | zero => rfl
  | succ n ih =>
    rw [crcLoop, call_bind, ih, Mem.slice_cons, List.foldl_cons]
    rfl

theorem call_usMBCRC16 (p : Ptr Obj) (n : Nat) (s : Store) :
    call (usMBCRC16 p n) s = (crc16 (s.mem.slice p n), { s with mem := s.mem.touchN p n }) := by
  rw [usMBCRC16, call_bind, call_crcLoop]
  rfl

theorem usMBCRC16_preserves {I : Store → Prop} {p : Ptr Obj} {n : Nat} (h : Reads I p n) :
    Preserves I (usMBCRC16 p n) := by
  have hloop : ∀ c, Preserves I (crcLoop n p c) := by
    induction n generalizing p with
    | zero => exact fun c => Preserves.pure _
    | succ n ih => exact fun c => Preserves.seq (h 0 (by omega)) fun _ => ih (h.add (by omega)) _
  exact Preserves.seq (hloop _) fun _ => Preserves.pure _

/-! ## Receiving -/

/-- What makes `eMBRTUReceive` accept the `n` bytes `bs` received. -/
def Valid (bs : List UCHAR) : Prop := 4 ≤ bs.length ∧ crc16 bs = 0

instance (bs : List UCHAR) : Decidable (Valid bs) := inferInstanceAs (Decidable (_ ∧ _))

section ReceiveFrame

variable (m : EModbus) (s : Store)

theorem receiveFrame_val : (call (receiveFrame m) s).1 =
    if Valid (s.mem.slice m.ucRTUBuf m.usRcvBufferPos) then
      some (s.byte m.ucRTUBuf 0, m.ucRTUBuf.add 1, m.usRcvBufferPos - 1 - 2)
    else none := by
  simp only [Valid, Mem.length_slice, receiveFrame, call_ite, call_bind, call_usMBCRC16]
  by_cases h : 4 ≤ m.usRcvBufferPos
  · by_cases hc : crc16 (s.mem.slice m.ucRTUBuf m.usRcvBufferPos) = 0
    · rw [if_pos h, if_pos hc, if_pos ⟨h, hc⟩, Store.byte, ← s.mem.touchN_data]
      rfl
    · rw [if_pos h, if_neg hc, if_neg fun hv => hc hv.2]
      rfl
  · rw [if_neg h, if_neg fun hv => h hv.1]
    rfl

theorem receiveFrame_data : (call (receiveFrame m) s).2.mem.data = s.mem.data := by
  simp only [receiveFrame, call_ite, call_bind, call_usMBCRC16]
  split
  · split <;> simp
  · rfl

end ReceiveFrame

/-! ## Sending -/

/-- The frame of a PDU: the address, the PDU, the CRC with its low byte first. -/
def wireFrame (a : UCHAR) (pdu : List UCHAR) : List UCHAR :=
  let crc := crc16 (a :: pdu)
  a :: pdu ++ [(crc &&& 0xFF).setWidth 8, (crc >>> 8).setWidth 8]

section BuildFrame

variable (m : EModbus) (a : UCHAR) (L : Nat) (s : Store)

/-- The memory once the address is in place. -/
theorem slice_address : (s.mem.store m.ucRTUBuf a).slice m.ucRTUBuf (1 + L) =
    a :: s.mem.slice (m.ucRTUBuf.add 1) L := by
  rw [Nat.add_comm, Mem.slice_cons, Mem.slice_store fun _ => Or.inl (by simp [EModbus.ucRTUBuf]),
    Mem.store_data, if_pos ⟨rfl, rfl⟩]

/-- The buffer after `buildFrame` holds the frame of the PDU that was in it. -/
theorem buildFrame_slice :
    (call (buildFrame m a (m.ucRTUBuf.add 1) L) s).2.mem.slice m.ucRTUBuf (1 + L + 2) =
      wireFrame a (s.mem.slice (m.ucRTUBuf.add 1) L) := by
  simp only [buildFrame, call_bind, call_wr, call_usMBCRC16, Ptr.pred_add_succ m.ucRTUBuf 0,
    Ptr.add_zero]
  rw [Mem.slice_succ, Mem.slice_store fun _ => Or.inr (by simp only [Ptr.add_off]; omega),
    Mem.slice_succ, Mem.slice_store fun _ => Or.inr (by simp [EModbus.ucRTUBuf]),
    Mem.slice_touchN, slice_address, wireFrame, List.append_assoc]
  rw [Mem.store_data, if_pos ⟨rfl, rfl⟩, Mem.store_data,
    if_pos ⟨rfl, by simp only [Ptr.add_off]; omega⟩]
  rfl

end BuildFrame

theorem buildFrame_preserves {I : Store → Prop} (m : EModbus) (a : UCHAR) {L : Nat} (hL : L ≤ 253)
    (hr : Reads I m.ucRTUBuf 256) (hw : Writes I m.ucRTUBuf 256) :
    Preserves I (buildFrame m a (m.ucRTUBuf.add 1) L) := by
  refine Preserves.seq (hw 0 (by omega) _) fun _ =>
    Preserves.seq (usMBCRC16_preserves (hr.mono (by omega))) fun _ =>
    Preserves.seq (hw _ (by omega) _) fun _ => hw _ (by omega) _

end Rs485.Modbus
