import Rs485.Proof.Modbus.Footprint
import Rs485.Proof.Modbus.Send

/-!
# The frame buffer is not left

From the access a handler needs (`FrameAccess`) to the bounds of the buffer:
the PDU starts at index 1, so that a handler reaches index 255 at most, and the
reply it leaves has room for the CRC.
-/

namespace Rs485.Modbus

open Rs485.Framework

theorem findHandler_mem {c : UCHAR} {l : List (UCHAR × MBFunctionHandler)} {h : MBFunctionHandler}
    (hf : findHandler c l = some h) : (c, h) ∈ l := by
  induction l with
  | nil => cases hf
  | cons x l ih =>
    obtain ⟨c', h'⟩ := x
    rw [findHandler] at hf
    split at hf
    · cases hf
    · split at hf
      · rename_i hc
        cases hf
        rw [hc]
        exact List.mem_cons_self
      · exact List.mem_cons_of_mem _ (ih hf)

section

variable {I : Store → Prop} {f : Ptr Obj} (hF : FrameAccess I f) (hM : MapAccess I)
include hF hM

/-- Every registered handler does what `HandlerOk` says. -/
theorem xFuncHandlers_ok : ∀ x ∈ xFuncHandlers, HandlerOk I f x.2 := by
  simp only [xFuncHandlers, List.forall_mem_cons, List.not_mem_nil, false_implies, implies_true,
    and_true]
  exact ⟨hF.reportSlaveID, hF.readInputRegister, hF.readHoldingRegister,
    hF.writeMultipleHoldingRegister hM, hF.writeHoldingRegister hM,
    hF.readWriteMultipleHoldingRegister hM, hF.readCoils, hF.writeCoil hM,
    hF.writeMultipleCoils hM, hF.readDiscreteInputs⟩

/-- `case EV_EXECUTE` up to the reply. -/
theorem pollExecute_ok {v : PollVars} (hf : v.ucMBFrame = f) (hL : LenOk v.usLength) :
    Meets I (pollExecute v) fun v' s => (v'.ucMBFrame = f ∧ LenOk v'.usLength) ∧ I s := by
  subst hf
  refine Preserves.seq (hF.rd 0 (by decide)) fun c => ?_
  split
  · rename_i h hfind
    exact Meets.bind (xFuncHandlers_ok hF hM _ (findHandler_mem hfind) _) fun r s hs => ⟨⟨rfl, hs.1 hL⟩, hs.2⟩
  · exact fun s hs => ⟨⟨rfl, hL⟩, hs⟩

omit hM in
theorem errorFrame_ok {v : PollVars} (hf : v.ucMBFrame = f) (hL : LenOk v.usLength) :
    Meets I (errorFrame v) fun v' s => (v'.ucMBFrame = f ∧ LenOk v'.usLength) ∧ I s := by
  subst hf
  refine Meets.ite (fun _ => ?_) fun _ s hs => ⟨⟨rfl, hL⟩, hs⟩
  exact Preserves.seq (hF.wr 0 (by decide) _) fun _ => Preserves.seq (hF.wr 1 (by decide) _)
    fun _ s hs => ⟨⟨rfl, (⟨by decide, by decide⟩ : LenOk 2)⟩, hs⟩

end

/-! ## The bounds of `ucRTUBuf` -/

/-- The accesses to the buffer of an instance so far were inside it. -/
def InBuf (id : Nat) (s : Store) : Prop := s.mem.Within (.ucRTUBuf id) 256

section

variable (id : Nat)

theorem frameAccess_inBuf : FrameAccess (InBuf id) ⟨.ucRTUBuf id, 1⟩ where
  rd := Reads.within fun _ => Nat.le_refl 256
  wr := Writes.within fun _ => Nat.le_refl 256
  bits := by
    rintro o (rfl | rfl) ix
    · exact Reads.within nofun
    · exact Reads.within nofun
  regs := fun _ _ hs => hs

theorem mapAccess_inBuf : MapAccess (InBuf id) where
  bits := fun _ => Writes.within nofun
  regs := fun _ _ _ hs => hs
  rdBuf := Reads.within nofun
  wrBuf := Writes.within nofun

end

theorem eMBRTUSend_inBuf {a : UCHAR} {p : Ptr Obj} {L : Nat} {s : Slave}
    (hp : p = ⟨.ucRTUBuf s.modbus.id, 1⟩) (hL : LenOk L) (hs : InBuf s.modbus.id s.store) :
    ∃ e t, eMBRTUSend a p L s = .ok (e, t) ∧ InBuf s.modbus.id t.store := by
  subst hp
  by_cases hr : s.modbus.rcvState = .rxIdle
  · refine ⟨_, _, eMBRTUSend_idle _ _ _ hr, ?_⟩
    exact buildFrame_preserves s.modbus a hL.2 (Reads.within fun _ => Nat.le_refl 256)
      (Writes.within fun _ => Nat.le_refl 256) s.store hs
  · exact ⟨_, _, eMBRTUSend_busy _ _ _ hr, hs⟩

theorem pollReply_inBuf {v : PollVars} {s : Slave} (hf : v.ucMBFrame = ⟨.ucRTUBuf s.modbus.id, 1⟩)
    (hL : LenOk v.usLength) (hs : InBuf s.modbus.id s.store) :
    ∃ v' t, pollReply v s = .ok (v', t) ∧ InBuf s.modbus.id t.store ∧ LenOk v'.usLength := by
  obtain ⟨⟨hf', hL'⟩, hs'⟩ := errorFrame_ok (frameAccess_inBuf _) hf hL s.store hs
  let s' : Slave := { s with store := (call (errorFrame v) s.store).2 }
  obtain ⟨e, t, ht, hin⟩ := eMBRTUSend_inBuf (a := s.modbus.ucMBAddress) (s := s') hf' hL' hs'
  exact ⟨_, t, pollReply_of_send ht, hin, hL'⟩

/-- A request never drives the frame buffer out of bounds: from a PDU of a length
that fits, `case EV_EXECUTE` runs to its end, accesses the buffer at indices
below 256 only, and the reply it sends (if it sends one) has a length that fits. -/
theorem pollExecuteReply_inBuf (v : PollVars) (s : Slave)
    (hf : v.ucMBFrame = ⟨.ucRTUBuf s.modbus.id, 1⟩) (hL : 1 ≤ v.usLength ∧ v.usLength ≤ 253)
    (hs : s.store.mem.Within (.ucRTUBuf s.modbus.id) 256) :
    ∃ v' t, pollExecuteReply v s = .ok (v', t) ∧ t.store.mem.Within (.ucRTUBuf s.modbus.id) 256 ∧
      1 ≤ v'.usLength ∧ v'.usLength ≤ 253 := by
  obtain ⟨⟨hf', hL'⟩, hs'⟩ :=
    pollExecute_ok (frameAccess_inBuf _) (mapAccess_inBuf _) hf hL s.store hs
  rw [pollExecuteReply]
  split
  · exact pollReply_inBuf (s := { s with store := (call (pollExecute v) s.store).2 }) hf' hL' hs'
  · exact ⟨_, _, rfl, hs', hL'⟩

/-- The request for the first two holding registers of slave 1, in the buffer. -/
def registersRequested : Slave :=
  { idleSlave with modbus.ucMBAddress := 1, store := .ofFrame [1, 3, 0, 0, 0, 2] }

/-- The static variables of `eMBPoll` once it has validated the request. -/
def registersVars : PollVars :=
  { PollVars.reset with ucMBFrame := ⟨.ucRTUBuf 0, 1⟩, ucRcvAddress := 1, usLength := 5 }

/-- The reply and its CRC stay in the buffer. -/
theorem pollExecuteReply_inBuf_registers :
    ∃ v' t, pollExecuteReply registersVars registersRequested = .ok (v', t) ∧
      t.store.mem.slice ⟨.ucRTUBuf 0, 0⟩ 9 = wireFrame 1 [3, 4, 0, 0, 0, 0] ∧
      t.store.mem.Within (.ucRTUBuf 0) 256 ∧ 1 ≤ v'.usLength ∧ v'.usLength ≤ 253 := by
  obtain ⟨v', t, hrun, hin, hlen⟩ := pollExecuteReply_inBuf registersVars registersRequested rfl
    (by decide) nofun
  have hreply : (pollExecuteReply registersVars registersRequested).toOption.map
      (fun r => r.2.store.mem.slice ⟨.ucRTUBuf 0, 0⟩ 9) = some (wireFrame 1 [3, 4, 0, 0, 0, 0]) := by
    decide +kernel
  rw [hrun] at hreply
  exact ⟨v', t, hrun, Option.some.inj hreply, hin, hlen⟩

end Rs485.Modbus
