import Mathlib.Data.List.Basic
import Rs485.Framework.Words
import Rs485.Proof.Modbus.Instance
import Rs485.Proof.Modbus.Send

/-!
# RTU framing

What the receiver makes of the bytes of a frame. The tables of `usMBCRC16` have
one zero row, the first, so that two bytes behind a string make its CRC zero
just if they are its CRC (`crc16_append_eq_zero`). `framing_exact` says that the
receiver takes just the frames that `eMBRTUSend` builds.
-/

namespace Rs485.Modbus

open Rs485.Framework

/-! ## The residue of the CRC -/

theorem aucCRCLo_eq_zero (i : UCHAR) : aucCRCLo.getD i.toNat 0 = 0 ↔ i = 0 := by
  revert i
  decide +kernel

theorem crcStep_eq (c : UCHAR × UCHAR) : crcStep c c.2 = (0, c.1) := by
  rw [crcStep, BitVec.xor_self]
  exact congrArg (Prod.mk 0) BitVec.xor_zero

/-- Two rounds clear both registers if and only if each byte is what its round finds there. -/
theorem crcStep_crcStep (c : UCHAR × UCHAR) (lo hi : UCHAR) :
    (crcStep (crcStep c lo) hi = (0, 0)) ↔ lo = c.2 ∧ hi = c.1 := by
  constructor
  · intro h
    have hhi : (crcStep c lo).2 = hi :=
      BitVec.xor_eq_zero_iff.mp ((aucCRCLo_eq_zero _).mp (congrArg Prod.fst h))
    have hfst : (crcStep c lo).1 = 0 := by
      subst hi
      rw [crcStep_eq] at h
      exact congrArg Prod.snd h
    have hlo : c.2 = lo := BitVec.xor_eq_zero_iff.mp ((aucCRCLo_eq_zero _).mp hfst)
    subst lo
    rw [crcStep_eq] at hhi
    exact ⟨rfl, hhi.symm⟩
  · rintro ⟨rfl, rfl⟩
    rw [crcStep_eq]
    exact crcStep_eq (0, c.1)

/-- The CRC of `bs`, its low byte first. -/
def crcBytes (bs : List UCHAR) : List UCHAR :=
  [(crc16 bs &&& 0xFF).setWidth 8, (crc16 bs >>> 8).setWidth 8]

theorem wireFrame_eq (a : UCHAR) (pdu : List UCHAR) : wireFrame a pdu = (a :: pdu) ++ crcBytes (a :: pdu) := rfl

theorem crc16_append_eq_zero (bs : List UCHAR) {crc : List UCHAR} (h : crc.length = 2) :
    crc16 (bs ++ crc) = 0 ↔ crc = crcBytes bs := by
  obtain ⟨lo, hi, rfl⟩ := List.length_eq_two.mp h
  let c := bs.foldl crcStep (0xFF, 0xFF)
  have hcrc : crcBytes bs = [c.2, c.1] := by
    rw [crcBytes, crc16, mask_append, shift_append]
  have hstep : crc16 (bs ++ [lo, hi]) = (crcStep (crcStep c lo) hi).1 ++ (crcStep (crcStep c lo) hi).2 := by
    rw [crc16, List.foldl_append]
    rfl
  rw [hstep, append_eq_zero, hcrc, ← Prod.mk.injEq]
  exact (crcStep_crcStep c lo hi).trans (by simp)

/-! ## The bytes of a frame -/

/-- `bytes` are fed one by one to `xMBRTUReceiveFSM`. -/
def feed : List UCHAR → Slave → Except Assertion Slave
  | [], s => .ok s
  | byte :: bytes, s => do
    let s ← Multi.arrive byte s
    feed bytes s

/-- `bytes` are fed, T3.5 expires, and `eMBRTUReceive` is called. -/
def receiveBytes (bytes : List UCHAR) (s : Slave) : Except Assertion (Option Received × Slave) := do
  let s ← feed bytes s
  let s ← xMBRTUTimerT35Expired s
  eMBRTUReceive s

/-- The address and the PDU that `eMBRTUReceive` has returned. -/
def decoded (r : Option Received) (s : Slave) : Option (UCHAR × List UCHAR) :=
  r.map fun r => (r.1, s.store.mem.slice r.2.1 r.2.2)

/-- The receiver has `bs` in the buffer, and takes more. -/
structure Receiving (bs : List UCHAR) (s : Slave) : Prop where
  rcv : s.modbus.rcvState = .rxRcv
  snd : s.modbus.sndState = .txIdle
  room : s.board.rxQueue.length < 256
  pos : s.modbus.usRcvBufferPos = bs.length
  held : s.store.mem.Holds s.modbus.ucRTUBuf bs

section Feed

variable {s : Slave} {bs : List UCHAR} (b : UCHAR)

theorem Receiving.timersEnable (h : Receiving bs s) : Receiving bs (vMBPortTimersEnable s) := by
  rw [vMBPortTimersEnable]
  split
  · exact ⟨h.rcv, h.snd, h.room, h.pos, h.held⟩
  · exact h

theorem arrive_idle (hr : s.modbus.rcvState = .rxIdle) (hs : s.modbus.sndState = .txIdle)
    (hq : s.board.rxQueue.length < 256) : ∃ t, Multi.arrive b s = .ok t ∧ Receiving [b] t := by
  rw [arrive_eq b hq, if_pos hs, hr]
  refine ⟨_, rfl, Receiving.timersEnable ⟨rfl, hs, hq, rfl, ?_⟩⟩
  exact Mem.holds_cons.mpr ⟨if_pos ⟨rfl, rfl⟩, Mem.holds_nil⟩

theorem Receiving.arrive (h : Receiving bs s) (hlen : bs.length < 256) :
    ∃ t, Multi.arrive b s = .ok t ∧ Receiving (bs ++ [b]) t := by
  have hpos : s.modbus.usRcvBufferPos < 256 := by rwa [h.pos]
  rw [arrive_eq b h.room, if_pos h.snd, h.rcv, rxCase, if_pos hpos]
  refine ⟨_, rfl, Receiving.timersEnable ⟨h.rcv, h.snd, h.room, ?_, ?_⟩⟩
  · rw [List.length_append, ← h.pos]
    rfl
  · refine Mem.holds_append.mpr ⟨?_, Mem.holds_cons.mpr ⟨if_pos ⟨rfl, ?_⟩, Mem.holds_nil⟩⟩
    · refine h.held.congr fun i _ hi => if_neg fun hw => ?_
      have hoff : i = s.modbus.ucRTUBuf.off + s.modbus.usRcvBufferPos := hw.2
      rw [hoff, h.pos] at hi
      exact Nat.lt_irrefl _ hi
    · exact congrArg (s.modbus.ucRTUBuf.off + ·) h.pos.symm

theorem Receiving.feed (h : Receiving bs s) {bytes : List UCHAR} (hlen : bs.length + bytes.length ≤ 256) :
    ∃ t, feed bytes s = .ok t ∧ Receiving (bs ++ bytes) t := by
  induction bytes generalizing bs s with
  | nil => exact ⟨s, rfl, by rwa [List.append_nil]⟩
  | cons b bytes ih =>
    rw [List.length_cons] at hlen
    obtain ⟨t, ht, hrec⟩ := h.arrive b (by omega)
    obtain ⟨u, hu, hrec'⟩ := ih hrec (by rw [List.length_append, List.length_singleton]; omega)
    rw [List.append_assoc, List.singleton_append] at hrec'
    exact ⟨u, by rw [Modbus.feed, ht]; exact hu, hrec'⟩

end Feed

section Receive

variable {s : Slave} {x : UCHAR} {pdu crc : List UCHAR} (hcrc : crc.length = 2) (hpdu : pdu ≠ [])
include hcrc hpdu

theorem valid_iff : Valid (x :: pdu ++ crc) ↔ crc = crcBytes (x :: pdu) := by
  have hpos := List.length_pos_iff.mpr hpdu
  rw [Valid, crc16_append_eq_zero _ hcrc, List.length_append, List.length_cons, hcrc]
  exact and_iff_right (by omega)

/-- What `eMBRTUReceive` makes of the buffer once T3.5 has expired. -/
theorem Receiving.receive (h : Receiving (x :: pdu ++ crc) s) (hlen : (x :: pdu ++ crc).length < 256) :
    ∃ r t, eMBRTUReceive (expired (xMBPortEventPost s.modbus .evFrameReceived) s) = .ok (r, t) ∧
      decoded r t = if crc = crcBytes (x :: pdu) then some (x, pdu) else none := by
  let u := expired (xMBPortEventPost s.modbus .evFrameReceived) s
  have hstore : u.store = s.store := expired_store _ _
  have hpos : u.modbus.usRcvBufferPos = (x :: pdu ++ crc).length := h.pos
  have hbuf : u.store.mem.Holds u.modbus.ucRTUBuf (x :: pdu ++ crc) := by
    rw [hstore]
    exact h.held
  have hval := receiveFrame_val u.modbus u.store
  rw [hpos, show u.store.mem.slice _ _ = _ from hbuf] at hval
  refine ⟨_, _, if_pos (hpos ▸ hlen), ?_⟩
  rw [hval, decoded]
  simp only [valid_iff hcrc hpdu]
  split
  · rw [List.cons_append] at hbuf
    obtain ⟨haddr, hrest⟩ := Mem.holds_cons.mp hbuf
    have hp := (Mem.holds_append.mp hrest).1
    have hL : (x :: pdu ++ crc).length - 1 - 2 = pdu.length := by
      rw [List.length_append, List.length_cons, hcrc]
      omega
    have hslice : (call (receiveFrame u.modbus) u.store).2.mem.slice (u.modbus.ucRTUBuf.add 1) pdu.length = pdu :=
      (Mem.slice_congr fun _ _ => by rw [receiveFrame_data]).trans hp
    rw [hL]
    exact congrArg some (Prod.ext haddr hslice)
  · rfl

/-- What the receiver makes of the bytes, from `STATE_RX_IDLE` on. -/
theorem receiveBytes_eq (hr : s.modbus.rcvState = .rxIdle) (hs : s.modbus.sndState = .txIdle)
    (hq : s.board.rxQueue.length < 256) (hlen : (x :: pdu ++ crc).length ≤ 255) :
    ∃ r t, receiveBytes (x :: pdu ++ crc) s = .ok (r, t) ∧
      decoded r t = if crc = crcBytes (x :: pdu) then some (x, pdu) else none := by
  obtain ⟨s₁, h₁, hrec⟩ := arrive_idle x hr hs hq
  obtain ⟨s₂, h₂, hrec⟩ := hrec.feed (show [x].length + (pdu ++ crc).length ≤ 256 by simp at hlen ⊢; omega)
  obtain ⟨r, t, h₃, hdec⟩ := Receiving.receive hcrc hpdu hrec (by omega)
  refine ⟨r, t, ?_, hdec⟩
  have hfeed : feed (x :: pdu ++ crc) s = .ok s₂ := by
    rw [List.cons_append, feed, h₁]
    exact h₂
  rw [receiveBytes, hfeed]
  show (do let s ← xMBRTUTimerT35Expired s₂; eMBRTUReceive s) = _
  rw [t35Expired_rcv hrec.rcv]
  exact h₃

end Receive

/-- Four bytes or more are an address, a PDU and two more. -/
theorem exists_parts {bs : List UCHAR} (h : 4 ≤ bs.length) :
    ∃ x pdu crc, bs = x :: pdu ++ crc ∧ crc.length = 2 ∧ pdu ≠ [] := by
  obtain ⟨x, bs, rfl⟩ := List.exists_cons_of_length_pos (l := bs) (by omega)
  rw [List.length_cons] at h
  refine ⟨x, bs.take (bs.length - 2), bs.drop (bs.length - 2), ?_, ?_, ?_⟩
  · rw [List.cons_append, List.take_append_drop]
  · rw [List.length_drop]
    omega
  · rw [← List.length_pos_iff, List.length_take]
    omega

/-- Framing is exact: the receiver takes `bs` just if it is the frame of the address and the
PDU, as `eMBRTUSend` builds it, and drops it just if its last two bytes are not the CRC. -/
theorem framing_exact (s : Slave) (bs : List UCHAR) (hr : s.modbus.rcvState = .rxIdle)
    (hs : s.modbus.sndState = .txIdle) (hq : s.board.rxQueue.length < 256) (h4 : 4 ≤ bs.length)
    (hlen : bs.length ≤ 255) :
    ∃ r t, receiveBytes bs s = .ok (r, t) ∧
      (∀ x pdu, decoded r t = some (x, pdu) ↔ bs = wireFrame x pdu) ∧
      (∀ a L (u v : Slave), eMBRTUSend a (u.modbus.ucRTUBuf.add 1) L u = .ok (.enoerr, v) →
        bs = v.store.mem.slice v.modbus.pucSndBufferCur (1 + L + 2) →
        decoded r t = some (a, u.store.mem.slice (u.modbus.ucRTUBuf.add 1) L)) ∧
      ∀ hd crc, bs = hd ++ crc → crc.length = 2 → crc ≠ crcBytes hd → r = none := by
  obtain ⟨x, pdu, crc, rfl, hcrc, hpdu⟩ := exists_parts h4
  obtain ⟨r, t, hrun, hdec⟩ := receiveBytes_eq hcrc hpdu hr hs hq hlen
  have hframe (a : UCHAR) (p : List UCHAR) :
      decoded r t = some (a, p) ↔ x :: pdu ++ crc = wireFrame a p := by
    rw [hdec, wireFrame_eq]
    constructor
    · intro h
      split at h
      · rename_i hc
        cases h
        rw [hc]
      · cases h
    · intro h
      obtain ⟨hhd, htl⟩ := List.append_inj' h hcrc
      obtain ⟨rfl, rfl⟩ := List.cons.inj hhd
      exact if_pos htl
  refine ⟨r, t, hrun, hframe, fun a L u v hsend hbs => ?_, fun hd crc' hbs hcrc' hne => ?_⟩
  · by_cases hidle : u.modbus.rcvState = .rxIdle
    · rw [eMBRTUSend_idle _ _ _ hidle] at hsend
      cases hsend
      exact (hframe _ _).mpr (hbs.trans (buildFrame_slice u.modbus a L u.store))
    · rw [eMBRTUSend_busy _ _ _ hidle] at hsend
      cases hsend
  · obtain ⟨rfl, rfl⟩ := List.append_inj' hbs (hcrc.trans hcrc'.symm)
    rw [if_neg hne] at hdec
    exact Option.map_eq_none_iff.mp hdec

/-- The request to read one register, with its CRC. -/
theorem framing_exact_request :
    ∃ r t, receiveBytes [0x01, 0x03, 0x00, 0x00, 0x00, 0x01, 0x84, 0x0A] idleSlave = .ok (r, t) ∧
      decoded r t = some (0x01, [0x03, 0x00, 0x00, 0x00, 0x01]) := by
  obtain ⟨r, t, hrun, hframe, -⟩ := framing_exact idleSlave [0x01, 0x03, 0x00, 0x00, 0x00, 0x01, 0x84, 0x0A] rfl
    rfl (by decide) (by decide) (by decide)
  exact ⟨r, t, hrun, (hframe _ _).mpr (by decide +kernel)⟩

end Rs485.Modbus
