import Rs485.Proof.Modbus.Events
import Rs485.Proof.Modbus.Transmitter

/-!
# The assertions of the receive path

The receiver fills the buffer up to its 256th byte, which `eMBRTUReceive` does
not expect, and a T3.5 that expires inside `xMBRTUReceiveFSM` leaves the timer
running in `STATE_RX_IDLE`, which `xMBRTUTimerT35Expired` does not expect. In the
runs without the one and the other neither assertion fails (`assertions_hold`).
-/

namespace Rs485.Modbus

open Rs485.Framework

/-- Whether `xMBRTUReceiveFSM` starts the timer next. -/
def startsTimer : TaskPc → Bool
  | .timer _ => true
  | _ => false

/-- The step leaves the limits alone. T3.5 does not complete a frame that fills the buffer;
no byte fills it while `EV_FRAME_RECEIVED` waits; and `xMBRTUReceiveFSM` does not start the
timer in `STATE_RX_IDLE`, to which T3.5 took the state it had read. -/
def InLimits (s : Sys) : Act → Prop
  | .rx _ => True
  | .t35 => s.slave.modbus.rcvState = .rxRcv → s.slave.modbus.usRcvBufferPos ≠ 256
  | .task _ _ =>
    (stateRead s.pc = some .rxRcv → s.slave.modbus.usRcvBufferPos = 255 →
      ¬ ReceivedQueued s.slave.modbus) ∧
    (startsTimer s.pc = true → s.slave.modbus.rcvState ≠ .rxIdle)

instance (s : Sys) : (a : Act) → Decidable (InLimits s a)
  | .rx _ => inferInstanceAs (Decidable True)
  | .t35 => inferInstanceAs (Decidable (_ → _))
  | .task _ _ => inferInstanceAs (Decidable (_ ∧ _))

/-- `EV_FRAME_RECEIVED` waits in the slot, or `eMBPoll` has it at hand. -/
def ReceivedWaits (s : Sys) : Prop :=
  ReceivedQueued s.slave.modbus ∨ s.pc = .got .evFrameReceived ∨ s.pc = .switch .evFrameReceived

/-- The position, the state and the timer along a run. -/
structure LimitInv (s : Sys) : Prop where
  ucPort : s.slave.modbus.ucPort = bspRS485
  pos : s.slave.modbus.rcvState = .rxRcv → s.slave.modbus.usRcvBufferPos ≤ 256
  room : ReceivedWaits s → s.slave.modbus.usRcvBufferPos < 256
  timer : s.slave.board.htim1Busy = true → s.slave.modbus.rcvState ≠ .rxIdle
  fault : s.fault ≠ some .receivePos ∧ s.fault ≠ some .t35State

section

variable {s t : Sys} {a : Act}

/-! ## The timer -/

theorem expired_htim1Busy {m : EModbus} (h : m.ucPort = bspRS485) (s : Slave) :
    (expired m s).board.htim1Busy = false := by
  rw [expired, vMBPortTimersDisable, if_pos h]

@[simp] theorem uartRxCb_htim1Busy (b : Board) (byte : UCHAR) :
    (bspUartRxCb b byte).htim1Busy = b.htim1Busy := by
  rw [bspUartRxCb]
  split <;> rfl

@[simp] theorem getByte_htim1Busy (late : Bool) (b : Board) :
    (xMBPortSerialGetByte late b).2.htim1Busy = b.htim1Busy := by
  cases late <;> cases h : b.rxQueue <;> simp [xMBPortSerialGetByte, h]

/-- The interrupt comes only from a timer that runs. -/
theorem running_of_t35 (h : service.next s .t35 = some t) : s.slave.board.htim1Busy = true := by
  simp only [service, Sys.next] at h
  split at h
  · split at h
    · assumption
    · cases h
  · cases h

/-! ## The receiver -/

@[simp] theorem rxCase_ucPort (rcvState : MBRcvState) (b : UCHAR) (s : Slave) :
    (rxCase rcvState b s).modbus.ucPort = s.modbus.ucPort := by
  obtain ⟨pos, st, h⟩ := rxCase_modbus rcvState b s
  rw [h]

/-- The case of `xMBRTUReceiveFSM` does not go back to `STATE_RX_IDLE`. -/
theorem rxCase_idle {rcvState : MBRcvState} {b : UCHAR} {s : Slave}
    (h : (rxCase rcvState b s).modbus.rcvState = .rxIdle) : s.modbus.rcvState = .rxIdle := by
  cases rcvState with
  | rxInit => exact h
  | rxError => exact h
  | rxIdle => cases h
  | rxRcv =>
    rw [rxCase] at h
    split at h
    · exact h
    · cases h

/-- A byte is stored below the end of the buffer. -/
theorem rxCase_pos {rcvState : MBRcvState} {b : UCHAR} {s : Slave}
    (hpos : s.modbus.rcvState = .rxRcv → s.modbus.usRcvBufferPos ≤ 256)
    (h : (rxCase rcvState b s).modbus.rcvState = .rxRcv) :
    (rxCase rcvState b s).modbus.usRcvBufferPos ≤ 256 := by
  cases rcvState with
  | rxInit => exact hpos h
  | rxError => exact hpos h
  | rxIdle => exact (by decide : 1 ≤ 256)
  | rxRcv =>
    rw [rxCase] at h ⊢
    split
    · rename_i hlt
      exact hlt
    · rename_i hge
      rw [if_neg hge] at h
      cases h

/-- The position moves by one, and to the end only from the cell before. -/
theorem rxCase_room {rcvState : MBRcvState} {b : UCHAR} {s : Slave}
    (hpos : s.modbus.usRcvBufferPos < 256)
    (h : rcvState = .rxRcv → s.modbus.usRcvBufferPos ≠ 255) :
    (rxCase rcvState b s).modbus.usRcvBufferPos < 256 := by
  cases rcvState with
  | rxInit => exact hpos
  | rxError => exact hpos
  | rxIdle => exact (by decide : 1 < 256)
  | rxRcv =>
    have hne := h rfl
    rw [rxCase, if_pos hpos]
    show s.modbus.usRcvBufferPos + 1 < 256
    omega

/-! ## The run -/

theorem LimitInv.of_init (h : service.init s) : LimitInv s := by
  have hb := Booted.of_init h
  refine ⟨hb.ucPort, fun hr => ?_, fun hw => ?_, fun _ hr => ?_, by rw [hb.fault]; exact ⟨nofun, nofun⟩⟩
  · cases hb.rcvState.symm.trans hr
  · rcases hw with ⟨hq, -⟩ | hpc | hpc
    · cases hb.xEventInQueue.symm.trans hq
    · cases hb.pc.symm.trans hpc
    · cases hb.pc.symm.trans hpc
  · cases hb.rcvState.symm.trans hr

/-- Where the task moves on, with no event at hand. -/
theorem LimitInv.moved (h : LimitInv s) (hm : t.slave.modbus = s.slave.modbus)
    (hb : t.slave.board.htim1Busy = s.slave.board.htim1Busy) (hf : t.fault = s.fault)
    (hgot : t.pc ≠ .got .evFrameReceived) (hswitch : t.pc ≠ .switch .evFrameReceived) : LimitInv t := by
  obtain ⟨hport, hpos, hroom, htimer, hfault⟩ := h
  rw [← hm] at hport hpos htimer
  rw [← hb] at htimer
  refine ⟨hport, hpos, fun hw => ?_, htimer, by rwa [hf]⟩
  rcases hw with hq | hpc | hpc
  · rw [hm] at hq ⊢
    exact hroom (Or.inl hq)
  · exact absurd hpc hgot
  · exact absurd hpc hswitch

/-- Where T3.5 expires, and stops the timer. -/
theorem LimitInv.expired (h : LimitInv s) {m : EModbus} {hist : List Obs} (hport : m.ucPort = bspRS485)
    (hroom : ReceivedWaits { s with slave := expired m s.slave } → m.usRcvBufferPos < 256) :
    LimitInv { s with slave := expired m s.slave, hist := hist } where
  ucPort := hport
  pos hr := by cases hr
  room := hroom
  timer hb := by
    have hstop : (Modbus.expired m s.slave).board.htim1Busy = true := hb
    rw [expired_htim1Busy hport] at hstop
    cases hstop
  fault := h.fault

theorem LimitInv.step (h : LimitInv s) (hrun : a = .t35 → s.slave.board.htim1Busy = true)
    (hno : NoReply s a) (hok : InLimits s a) (hs : Step s a t) : LimitInv t := by
  have hI := h
  obtain ⟨hport, hpos, hroom, htimer, hfault⟩ := h
  cases hs with
  | rx byte => exact ⟨hport, hpos, hroom, by simpa using htimer, hfault⟩
  | t35Init h =>
    refine hI.expired hport fun hw => ?_
    rcases hw with ⟨-, hq⟩ | hpc | hpc
    · cases hq
    · exact hroom (Or.inr (Or.inl hpc))
    · exact hroom (Or.inr (Or.inr hpc))
  | t35Rcv h =>
    have hlt : s.slave.modbus.usRcvBufferPos < 256 := Nat.lt_of_le_of_ne (hpos h) (hok h)
    exact hI.expired hport fun _ => hlt
  | t35Error h => exact hI.expired hport hroom
  | t35Fault h => exact absurd h (htimer (hrun rfl))
  | pollNone hpc h => exact hI.moved rfl rfl rfl nofun nofun
  | pollEvent hpc he hq =>
    refine ⟨hport, hpos, fun hw => ?_, htimer, hfault⟩
    rcases hw with hslot | hpc' | hpc'
    · exact hroom (Or.inl hslot)
    · exact hroom (Or.inl ⟨hq, TaskPc.got.inj hpc'⟩)
    · cases hpc'
  | take hpc =>
    refine ⟨hport, hpos, fun hw => ?_, htimer, hfault⟩
    rcases hw with ⟨hslot, -⟩ | hpc' | hpc'
    · cases hslot
    · cases hpc'
    · cases hpc'
      exact hroom (Or.inr (Or.inl hpc))
  | receiveFault hpc h => exact absurd (hroom (Or.inr (Or.inr hpc))) h
  | receiveAccept hpc hlt h => exact hI.moved rfl rfl rfl nofun nofun
  | receiveIgnore hpc hlt h vars => exact hI.moved rfl rfl rfl nofun nofun
  | execute hpc store vars pc hpc' =>
    split at hpc'
    all_goals
      subst hpc'
      exact hI.moved rfl rfl rfl nofun nofun
  | ignore hpc h => exact hI.moved rfl rfl rfl nofun nofun
  | post hpc =>
    refine ⟨hport, hpos, fun hw => ?_, htimer, hfault⟩
    rcases hw with ⟨-, hq⟩ | hpc' | hpc'
    · cases hq
    · cases hpc'
    · cases hpc'
  | replySent hpc hr p store vars board hb => exact absurd hr (hno hpc)
  | replyBusy hpc h store vars => exact hI.moved rfl rfl rfl nofun nofun
  | drain hpc => exact hI.moved rfl rfl rfl nofun nofun
  | feedDone hpc => exact hI.moved rfl rfl rfl nofun nofun
  | feed hpc h => exact hI.moved rfl (getByte_htim1Busy _ _) rfl nofun nofun
  | feedFault hpc h => exact ⟨hport, hpos, hroom, htimer, nofun, nofun⟩
  | fsm hpc =>
    refine ⟨by simpa using hport, rxCase_pos hpos, fun hw => ?_, fun hb hr => ?_, hfault⟩
    · rcases hw with hq | hpc' | hpc'
      · have hq : ReceivedQueued s.slave.modbus := by simpa [ReceivedQueued] using hq
        exact rxCase_room (hroom (Or.inl hq)) fun hst he => hok.1 (by rw [hpc, stateRead, hst]) he hq
      · cases hpc'
      · cases hpc'
    · rw [rxCase_board] at hb
      exact htimer hb (rxCase_idle hr)
  | timer hpc =>
    have hne := hok.2 (by rw [hpc, startsTimer])
    refine ⟨by simpa using hport, by simpa using hpos, fun hw => ?_, fun _ => by simpa using hne, hfault⟩
    rcases hw with hq | hpc' | hpc'
    · simpa using hroom (Or.inl (by simpa using hq))
    · cases hpc'
    · cases hpc'

end

/-- In the runs that send no reply and stay clear of the limits, the assertions on the position
of the buffer and on the state at a T3.5 do not fail. -/
theorem assertions_hold (s : Sys) (h : service.Reach (fun s a => NoReply s a ∧ InLimits s a) s) :
    s.fault ≠ some .receivePos ∧ s.fault ≠ some .t35State :=
  (h.inv (fun _ hi => LimitInv.of_init hi) fun _ _ _ hI hok hn =>
    hI.step (fun ha => running_of_t35 (ha ▸ hn)) hok.1 hok.2 (Step.of_next hn).2).fault

/-- No reply is sent but where `eMBPoll` is about to. -/
theorem noReply_of_pc {s : Sys} (h : s.pc ≠ .reply) (a : Act) : NoReply s a := by
  cases a with
  | task late junk => exact fun hpc => absurd hpc h
  | _ => trivial

/-- A request is received and validated. -/
theorem assertions_hold_request :
    let s := (service.exec (fun s a => decide (s.pc ≠ .reply ∧ InLimits s a)) start
      (requestReceived ++ tasks 5)).1
    s.hist.head? = some (.validated request) ∧ s.fault ≠ some .receivePos ∧ s.fault ≠ some .t35State := by
  have hr := Lts.Run.of_decide service (fun s a => s.pc ≠ .reply ∧ InLimits s a) start
    (requestReceived ++ tasks 5) (by decide +kernel)
  have hreach := hr.mono fun s a h => h.imp_left (noReply_of_pc · a)
  exact ⟨by decide +kernel, assertions_hold _ ⟨_, _, start_init, hreach⟩⟩

/-- A frame of `n` bytes after the first T3.5, its T3.5, and the next call of `eMBPoll`. -/
def frameOf (n : Nat) : List Act :=
  [.t35] ++ tasks 3 ++ receive (List.replicate n 0) ++ tasks (1 + 3 * n + 1) ++ [.t35] ++ tasks 3

/-- T3.5 expires once `xMBRTUReceiveFSM` has stored its second byte, before it starts the
timer, and then again. -/
def overtaken : List Act :=
  [.t35] ++ tasks 3 ++ receive [0, 0] ++ tasks (1 + 3 + 2) ++ [.t35] ++ tasks 1 ++ [.t35]

/-- A frame of 256 bytes fails the one assertion, a T3.5 inside `xMBRTUReceiveFSM` the other. -/
theorem not_assertions_hold :
    (¬ ∀ s : Sys, service.Reach NoReply s → s.fault ≠ some .receivePos) ∧
    ¬ ∀ s : Sys, service.Reach NoReply s → s.fault ≠ some .t35State := by
  refine ⟨fun h => ?_, fun h => ?_⟩
  · have hr := Lts.Run.of_decide service (fun s _ => s.pc ≠ .reply) start (frameOf 256) (by decide +kernel)
    exact h _ ⟨_, _, start_init, hr.mono fun _ a h => noReply_of_pc h a⟩ (by decide +kernel)
  · have hr := Lts.Run.of_decide service (fun s _ => s.pc ≠ .reply) start overtaken (by decide +kernel)
    exact h _ ⟨_, _, start_init, hr.mono fun _ a h => noReply_of_pc h a⟩ (by decide +kernel)

end Rs485.Modbus
