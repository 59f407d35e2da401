import Rs485.Impl.Modbus.Mb
import Rs485.Proof.Modbus.Frame

/-!
# Sending a reply

`eMBRTUSend` builds the frame in the buffer and hands it to the port. The port
transmits one byte, and not one of the frame: the low byte of the pointer it
was given (`transmit_xmit`). So no reply is ever on the line.
-/

namespace Rs485.Modbus

open Rs485.Framework

/-- `xMBRTUTransmitFSM` with a frame to send. -/
theorem transmit_xmit {s : Slave} (hr : s.modbus.rcvState = .rxIdle)
    (ht : s.modbus.sndState = .txXmit) (hc : s.modbus.usSndBufferCount ≠ 0) :
    xMBRTUTransmitFSM s = .ok
      { s with
        board.uartTx := s.board.uartTx ++
          [(s.modbus.ucRTUBufAddr + BitVec.ofNat 32 s.modbus.pucSndBufferCur.off).setWidth 8]
        modbus.usSndBufferCount := 0 } := by
  rw [xMBRTUTransmitFSM, if_pos hr, ht]
  simp only [hc, ne_eq, not_false_eq_true, if_true]
  rfl

/-- What a call of `eMBRTUSend` that sends leaves. -/
def sent (ucSlaveAddress : UCHAR) (pucFrame : Ptr Obj) (usLength : Nat) (s : Slave) : Slave where
  store := (call (buildFrame s.modbus ucSlaveAddress pucFrame usLength) s.store).2
  modbus :=
    { s.modbus with
      pucSndBufferCur := pucFrame.pred, usSndBufferCount := 0, sndState := .txXmit }
  board :=
    { s.board with
      rs485De := true
      uartTx := s.board.uartTx ++
        [(s.modbus.ucRTUBufAddr + BitVec.ofNat 32 pucFrame.pred.off).setWidth 8] }

section Send

variable (a : UCHAR) (p : Ptr Obj) (L : Nat) {s : Slave}

theorem eMBRTUSend_idle (hr : s.modbus.rcvState = .rxIdle) :
    eMBRTUSend a p L s = .ok (.enoerr, sent a p L s) := by
  let t : Slave :=
    { modbus :=
        { s.modbus with
          pucSndBufferCur := p.pred, usSndBufferCount := 1 + L + 2, sndState := .txXmit }
      store := (call (buildFrame s.modbus a p L) s.store).2
      board := { s.board with rs485De := true } }
  have ht : xMBRTUTransmitFSM t = .ok (sent a p L s) :=
    transmit_xmit hr rfl (by simp only [t]; omega)
  rw [eMBRTUSend, if_pos hr]
  exact congrArg (fun r => do let s ← r; return (MBErrorCode.enoerr, s)) ht

theorem eMBRTUSend_busy (hr : s.modbus.rcvState ≠ .rxIdle) :
    eMBRTUSend a p L s = .ok (.eio, s) := by
  rw [eMBRTUSend, if_neg hr]

end Send

/-- The reply is the one of `errorFrame`, sent. -/
theorem pollReply_of_send {v : PollVars} {s t : Slave} {e : MBErrorCode}
    (h : eMBRTUSend s.modbus.ucMBAddress (call (errorFrame v) s.store).1.ucMBFrame
      (call (errorFrame v) s.store).1.usLength
      { s with store := (call (errorFrame v) s.store).2 } = .ok (e, t)) :
    pollReply v s = .ok ((call (errorFrame v) s.store).1, t) := by
  rw [pollReply, h]
  rfl

/-! ## The line -/

/-- `eMBRTUSend` puts exactly the frame of the PDU at `ucRTUBuf[1]` on the line. -/
def OnWire (a : UCHAR) (L : Nat) (s : Slave) : Prop :=
  ∃ e t, eMBRTUSend a (s.modbus.ucRTUBuf.add 1) L s = .ok (e, t) ∧
    t.board.uartTx =
      s.board.uartTx ++ wireFrame a (s.store.mem.slice (s.modbus.ucRTUBuf.add 1) L)

theorem length_wireFrame (a : UCHAR) (pdu : List UCHAR) :
    (wireFrame a pdu).length = pdu.length + 3 := by
  simp [wireFrame]

/-- In the states in which a reply is sent the line gets one byte. -/
theorem not_onWire {a : UCHAR} {L : Nat} {s : Slave} (hr : s.modbus.rcvState = .rxIdle) :
    ¬ OnWire a L s := by
  rintro ⟨e, t, ht, hw⟩
  rw [eMBRTUSend_idle _ _ _ hr] at ht
  cases ht
  have hlen := congrArg List.length (List.append_cancel_left hw)
  rw [length_wireFrame] at hlen
  simp at hlen

/-- A reply is never on the line: all that is transmitted of it is the low byte
of the address of the buffer, while the frame stays in the buffer. -/
theorem reply_never_onWire (a : UCHAR) (L : Nat) (s : Slave) (hr : s.modbus.rcvState = .rxIdle) :
    ¬ OnWire a L s ∧ ∃ t, eMBRTUSend a (s.modbus.ucRTUBuf.add 1) L s = .ok (.enoerr, t) ∧
      t.board.uartTx = s.board.uartTx ++ [s.modbus.ucRTUBufAddr.setWidth 8] ∧
      t.store.mem.slice s.modbus.ucRTUBuf (1 + L + 2) =
        wireFrame a (s.store.mem.slice (s.modbus.ucRTUBuf.add 1) L) := by
  refine ⟨not_onWire hr, _, eMBRTUSend_idle _ _ _ hr, ?_, buildFrame_slice _ _ _ _⟩
  simp [sent, EModbus.ucRTUBuf]

/-- The slave at reset, once the line is idle. -/
def idleSlave : Slave :=
  { Slave.reset 0x20000000 with modbus.rcvState := .rxIdle }

theorem reply_never_onWire_idleSlave : ¬ OnWire 1 5 idleSlave ∧
    ∃ t, eMBRTUSend 1 (idleSlave.modbus.ucRTUBuf.add 1) 5 idleSlave = .ok (.enoerr, t) ∧
      t.board.uartTx = [0x00] ∧
      t.store.mem.slice idleSlave.modbus.ucRTUBuf 8 =
        wireFrame 1 (idleSlave.store.mem.slice (idleSlave.modbus.ucRTUBuf.add 1) 5) :=
  reply_never_onWire 1 5 idleSlave rfl

/-- The reply of slave 1 with a PDU of one byte is not on the line. -/
theorem reply_not_onWire : ¬ ∀ (a : UCHAR) (L : Nat) (s : Slave), 1 ≤ L ∧ L ≤ 253 →
    s.modbus.rcvState = .rxIdle → s.modbus.sndState = .txIdle → OnWire a L s :=
  fun h => not_onWire rfl (h 1 1 idleSlave (by decide) rfl rfl)

end Rs485.Modbus
