import Rs485.Impl.Modbus.Service
import Rs485.Proof.Modbus.Send

/-!
# The steps of the service

`Step s a t` says once what an action can do to the system: one constructor for
each way through the interrupt and through the part of `modbus_task` that runs,
with the state it leaves. Every invariant of the service is a case analysis on
it (`Step.of_next`).
-/

namespace Rs485.Modbus

open Rs485.Framework

/-! ## The interrupt -/

/-- The slave after T3.5, with `m` what became of the instance before the timer is stopped. -/
def expired (m : EModbus) (s : Slave) : Slave :=
  { vMBPortTimersDisable { s with modbus := m } with modbus := { m with rcvState := .rxIdle } }

section Timers

variable (m : EModbus) (s : Slave)

@[simp] theorem expired_modbus : (expired m s).modbus = { m with rcvState := .rxIdle } := rfl

@[simp] theorem expired_store : (expired m s).store = s.store := by
  rw [expired, vMBPortTimersDisable]; split <;> rfl

@[simp] theorem expired_rs485De : (expired m s).board.rs485De = s.board.rs485De := by
  rw [expired, vMBPortTimersDisable]; split <;> rfl

theorem timersDisable_modbus : (vMBPortTimersDisable s).modbus = s.modbus := by
  rw [vMBPortTimersDisable]; split <;> rfl

@[simp] theorem timersEnable_modbus : (vMBPortTimersEnable s).modbus = s.modbus := by
  rw [vMBPortTimersEnable]; split <;> rfl

@[simp] theorem timersEnable_store : (vMBPortTimersEnable s).store = s.store := by
  rw [vMBPortTimersEnable]; split <;> rfl

@[simp] theorem timersEnable_rs485De :
    (vMBPortTimersEnable s).board.rs485De = s.board.rs485De := by
  rw [vMBPortTimersEnable]; split <;> rfl

@[simp] theorem uartRxCb_rs485De (b : Board) (byte : UCHAR) :
    (bspUartRxCb b byte).rs485De = b.rs485De := by
  rw [bspUartRxCb]; split <;> rfl

end Timers

theorem t35Expired_init {s : Slave} (h : s.modbus.rcvState = .rxInit) :
    xMBRTUTimerT35Expired s = .ok (expired (xMBPortEventPost s.modbus .evReady) s) := by
  simp only [xMBRTUTimerT35Expired, h, timersDisable_modbus, expired]

theorem t35Expired_rcv {s : Slave} (h : s.modbus.rcvState = .rxRcv) :
    xMBRTUTimerT35Expired s = .ok (expired (xMBPortEventPost s.modbus .evFrameReceived) s) := by
  simp only [xMBRTUTimerT35Expired, h, timersDisable_modbus, expired]

theorem t35Expired_error {s : Slave} (h : s.modbus.rcvState = .rxError) :
    xMBRTUTimerT35Expired s = .ok (expired s.modbus s) := by
  simp only [xMBRTUTimerT35Expired, h, timersDisable_modbus, expired]

theorem t35Expired_idle {s : Slave} (h : s.modbus.rcvState = .rxIdle) :
    xMBRTUTimerT35Expired s = .error .t35State := by
  simp only [xMBRTUTimerT35Expired, h]

/-! ## The receiver -/

section RxCase

variable (rcvState : MBRcvState) (b : UCHAR) (s : Slave)

/-- Of the instance, the case of `xMBRTUReceiveFSM` changes the position and the state. -/
theorem rxCase_modbus : ∃ pos st, (rxCase rcvState b s).modbus =
    { s.modbus with usRcvBufferPos := pos, rcvState := st } := by
  cases rcvState with
  | rxInit => exact ⟨_, _, rfl⟩
  | rxError => exact ⟨_, _, rfl⟩
  | rxIdle => exact ⟨_, _, rfl⟩
  | rxRcv =>
    rw [rxCase]
    split
    · exact ⟨_, _, rfl⟩
    · exact ⟨_, _, rfl⟩

@[simp] theorem rxCase_id : (rxCase rcvState b s).modbus.id = s.modbus.id := by
  obtain ⟨pos, st, h⟩ := rxCase_modbus rcvState b s
  rw [h]

@[simp] theorem rxCase_ucMBAddress :
    (rxCase rcvState b s).modbus.ucMBAddress = s.modbus.ucMBAddress := by
  obtain ⟨pos, st, h⟩ := rxCase_modbus rcvState b s
  rw [h]

@[simp] theorem rxCase_sndState : (rxCase rcvState b s).modbus.sndState = s.modbus.sndState := by
  obtain ⟨pos, st, h⟩ := rxCase_modbus rcvState b s
  rw [h]

@[simp] theorem rxCase_eMBState : (rxCase rcvState b s).modbus.eMBState = s.modbus.eMBState := by
  obtain ⟨pos, st, h⟩ := rxCase_modbus rcvState b s
  rw [h]

@[simp] theorem rxCase_xEventInQueue :
    (rxCase rcvState b s).modbus.xEventInQueue = s.modbus.xEventInQueue := by
  obtain ⟨pos, st, h⟩ := rxCase_modbus rcvState b s
  rw [h]

@[simp] theorem rxCase_eQueuedEvent :
    (rxCase rcvState b s).modbus.eQueuedEvent = s.modbus.eQueuedEvent := by
  obtain ⟨pos, st, h⟩ := rxCase_modbus rcvState b s
  rw [h]

@[simp] theorem rxCase_posted : (rxCase rcvState b s).modbus.posted = s.modbus.posted := by
  obtain ⟨pos, st, h⟩ := rxCase_modbus rcvState b s
  rw [h]

@[simp] theorem rxCase_got : (rxCase rcvState b s).modbus.got = s.modbus.got := by
  obtain ⟨pos, st, h⟩ := rxCase_modbus rcvState b s
  rw [h]

@[simp] theorem rxCase_board : (rxCase rcvState b s).board = s.board := by
  cases rcvState with
  | rxRcv =>
    rw [rxCase]
    split <;> rfl
  | _ => rfl

end RxCase

/-! ## The parts of `eMBPoll` -/

/-- The frame `bs` is for the slave with the address `a`: valid, and addressed to it or to all. -/
def ForSlave (a : UCHAR) (bs : List UCHAR) : Prop :=
  Valid bs ∧ (bs.headD 0 = a ∨ bs.headD 0 = mbAddressBroadcast)

instance (a : UCHAR) (bs : List UCHAR) : Decidable (ForSlave a bs) :=
  inferInstanceAs (Decidable (_ ∧ _))

/-- The PDU of a frame: what is between the address and the CRC. -/
def pduOf (bs : List UCHAR) : List UCHAR := (bs.drop 1).take (bs.length - 3)

section PollReceive

variable {v : PollVars} {s : Slave}

/-- The store after `eMBRTUReceive` has looked at the buffer. -/
def receivedStore (s : Slave) : Store := (call (receiveFrame s.modbus) s.store).2

theorem receivedStore_data (s : Slave) : (receivedStore s).mem.data = s.store.mem.data :=
  receiveFrame_data s.modbus s.store

theorem eMBRTUReceive_eq (h : s.modbus.usRcvBufferPos < 256) : eMBRTUReceive s =
    .ok ((call (receiveFrame s.modbus) s.store).1, { s with store := receivedStore s }) := by
  rw [eMBRTUReceive, if_pos h]
  rfl

theorem pollReceive_full (h : ¬ s.modbus.usRcvBufferPos < 256) :
    pollReceive v s = .error .receivePos := by
  rw [pollReceive, eMBRTUReceive, if_neg h]
  rfl

theorem pollReceive_valid (h : s.modbus.usRcvBufferPos < 256)
    (hv : Valid (s.store.mem.slice s.modbus.ucRTUBuf s.modbus.usRcvBufferPos)) :
    pollReceive v s = .ok
      (decide (s.store.byte s.modbus.ucRTUBuf 0 = s.modbus.ucMBAddress ∨
        s.store.byte s.modbus.ucRTUBuf 0 = mbAddressBroadcast),
        { v with
          ucRcvAddress := s.store.byte s.modbus.ucRTUBuf 0
          ucMBFrame := s.modbus.ucRTUBuf.add 1
          usLength := s.modbus.usRcvBufferPos - 1 - 2 },
        { s with store := receivedStore s }) := by
  rw [pollReceive, eMBRTUReceive_eq h, receiveFrame_val, if_pos hv]
  rfl

theorem pollReceive_invalid (h : s.modbus.usRcvBufferPos < 256)
    (hv : ¬ Valid (s.store.mem.slice s.modbus.ucRTUBuf s.modbus.usRcvBufferPos)) :
    pollReceive v s = .ok (false, v, { s with store := receivedStore s }) := by
  rw [pollReceive, eMBRTUReceive_eq h, receiveFrame_val, if_neg hv]
  rfl

end PollReceive

/-- The PDU of the frame in the buffer. -/
theorem pduOf_frame {s : Sys} (h : 4 ≤ s.slave.modbus.usRcvBufferPos) : pduOf s.frame =
    s.slave.store.mem.slice (s.slave.modbus.ucRTUBuf.add 1)
      (s.slave.modbus.usRcvBufferPos - 1 - 2) := by
  rw [pduOf, Sys.frame, Mem.length_slice]
  have hlen : s.slave.modbus.usRcvBufferPos = s.slave.modbus.usRcvBufferPos - 1 + 1 := by omega
  rw [hlen, Mem.slice_cons, List.drop_succ_cons, List.drop_zero, Mem.take_slice _ _ (by omega)]
  congr 1

/-! ## The start -/

/-- The service as `modbus_service_init` leaves it. -/
structure Booted (s : Sys) : Prop where
  rcvState : s.slave.modbus.rcvState = .rxInit
  sndState : s.slave.modbus.sndState = .txIdle
  eMBState : s.slave.modbus.eMBState = .enabled
  ucPort : s.slave.modbus.ucPort = bspRS485
  xEventInQueue : s.slave.modbus.xEventInQueue = false
  posted : s.slave.modbus.posted = []
  got : s.slave.modbus.got = []
  rs485De : s.slave.board.rs485De = false
  pc : s.pc = .poll
  fault : s.fault = none
  hist : s.hist = []

theorem Booted.of_init {s : Sys} (h : service.init s) : Booted s := by
  obtain ⟨slave, v, a, -, -, hb⟩ := h
  cases hb
  exact
    { rcvState := by simp
      sndState := by simp; rfl
      eMBState := rfl
      ucPort := by simp; rfl
      xEventInQueue := by simp; rfl
      posted := by simp
      got := by simp
      rs485De := by simp
      pc := rfl
      fault := rfl
      hist := rfl }

/-- The service of slave 1, started with its memory zero. -/
def start : Sys where
  slave :=
    { Slave.reset 0x20000000 with
      modbus :=
        { (Slave.reset 0x20000000).modbus with
          ucMBAddress := 1, ucPort := bspRS485, eMBState := .enabled }
      board := { (Slave.reset 0x20000000).board with htim1Busy := true } }
  vars := .reset
  pc := .poll
  fault := none
  hist := []

theorem start_init : service.init start :=
  ⟨Slave.reset 0x20000000, .reset, 1, by decide, by decide, rfl⟩

/-- The task runs on `n` times. -/
def tasks (n : Nat) : List Act := List.replicate n (.task false 0)

/-- The reception of the bytes of a frame. Each goes to the front of the queue, so that
they come out the other way round. -/
def receive (bs : List UCHAR) : List Act := bs.reverse.map .rx

/-- A request for holding register 0 of slave 1. -/
def request : List UCHAR := [0x01, 0x03, 0x00, 0x00, 0x00, 0x01, 0x84, 0x0A]

/-- The first T3.5, and the request up to the next one, read by the task. -/
def requestReceived : List Act := [.t35] ++ tasks 3 ++ receive request ++ tasks 26 ++ [.t35]

/-- The request is validated in one iteration of the task and served in the next. -/
def requestServed : List Act := requestReceived ++ tasks 12

/-- A broadcast to set register 2 is received and served. -/
def broadcastServed : List Act :=
  [.t35] ++ tasks 3 ++ receive [0x00, 0x06, 0x00, 0x02, 0x12, 0x34, 0x24, 0xAC] ++ tasks 26 ++ [.t35] ++
    tasks 15

/-- What is recorded of the request before it is served. -/
def requestHist : List Obs :=
  [.polled, .validated request, .polled, .completed request, .polled]

/-! ## The steps -/

/-- What `a` can do to the system in the state `s`. -/
inductive Step (s : Sys) : Act → Sys → Prop
  | rx (byte : UCHAR) :
    Step s (.rx byte) { s with slave.board := bspUartRxCb s.slave.board byte }
  | t35Init (h : s.slave.modbus.rcvState = .rxInit) :
    Step s .t35 { s with slave := expired (xMBPortEventPost s.slave.modbus .evReady) s.slave }
  | t35Rcv (h : s.slave.modbus.rcvState = .rxRcv) :
    Step s .t35
      { s with
        slave := expired (xMBPortEventPost s.slave.modbus .evFrameReceived) s.slave
        hist := .completed s.frame :: s.hist }
  | t35Error (h : s.slave.modbus.rcvState = .rxError) :
    Step s .t35 { s with slave := expired s.slave.modbus s.slave }
  | t35Fault (h : s.slave.modbus.rcvState = .rxIdle) : Step s .t35 (s.fail .t35State)
  | pollNone {late junk} (hpc : s.pc = .poll)
    (h : ¬ (s.slave.modbus.eMBState = .enabled ∧ s.slave.modbus.xEventInQueue = true)) :
    Step s (.task late junk) { s with pc := .drain, hist := .polled :: s.hist }
  | pollEvent {late junk} (hpc : s.pc = .poll) (he : s.slave.modbus.eMBState = .enabled)
    (hq : s.slave.modbus.xEventInQueue = true) :
    Step s (.task late junk)
      { s with pc := .got s.slave.modbus.eQueuedEvent, hist := .polled :: s.hist }
  | take {late junk e} (hpc : s.pc = .got e) :
    Step s (.task late junk)
      { s with slave.modbus := xMBPortEventTake s.slave.modbus e, pc := .switch e }
  | receiveFault {late junk} (hpc : s.pc = .switch .evFrameReceived)
    (h : ¬ s.slave.modbus.usRcvBufferPos < 256) :
    Step s (.task late junk) (s.fail .receivePos)
  | receiveAccept {late junk} (hpc : s.pc = .switch .evFrameReceived)
    (hpos : s.slave.modbus.usRcvBufferPos < 256) (h : ForSlave s.slave.modbus.ucMBAddress s.frame) :
    Step s (.task late junk)
      { s with
        slave.store := receivedStore s.slave
        vars :=
          { s.vars with
            ucRcvAddress := s.slave.store.byte s.slave.modbus.ucRTUBuf 0
            ucMBFrame := s.slave.modbus.ucRTUBuf.add 1
            usLength := s.slave.modbus.usRcvBufferPos - 1 - 2 }
        pc := .post
        hist := .validated s.frame :: s.hist }
  | receiveIgnore {late junk} (hpc : s.pc = .switch .evFrameReceived)
    (hpos : s.slave.modbus.usRcvBufferPos < 256)
    (h : ¬ ForSlave s.slave.modbus.ucMBAddress s.frame) (vars : PollVars) :
    Step s (.task late junk)
      { s with slave.store := receivedStore s.slave, vars := vars, pc := .drain }
  | execute {late junk} (hpc : s.pc = .switch .evExecute) (store : Store) (vars : PollVars)
    (pc : TaskPc) (hpc' : pc = if vars.ucRcvAddress ≠ mbAddressBroadcast then .reply else .drain) :
    Step s (.task late junk)
      { s with
        slave.store := store, vars := vars, pc := pc, hist := .executed s.pdu :: s.hist }
  | ignore {late junk e} (hpc : s.pc = .switch e) (h : e = .evReady ∨ e = .evFrameSent) :
    Step s (.task late junk) { s with pc := .drain }
  | post {late junk} (hpc : s.pc = .post) :
    Step s (.task late junk)
      { s with slave.modbus := xMBPortEventPost s.slave.modbus .evExecute, pc := .drain }
  | replySent {late junk} (hpc : s.pc = .reply) (h : s.slave.modbus.rcvState = .rxIdle)
    (p : Ptr Obj) (store : Store) (vars : PollVars) (board : Board) (hb : board.rs485De = true) :
    Step s (.task late junk)
      { s with
        slave :=
          { modbus :=
              { s.slave.modbus with
                pucSndBufferCur := p, usSndBufferCount := 0, sndState := .txXmit }
            store := store
            board := board }
        vars := vars
        pc := .drain }
  | replyBusy {late junk} (hpc : s.pc = .reply) (h : s.slave.modbus.rcvState ≠ .rxIdle)
    (store : Store) (vars : PollVars) :
    Step s (.task late junk) { s with slave.store := store, vars := vars, pc := .drain }
  | drain {late junk} (hpc : s.pc = .drain) :
    Step s (.task late junk) { s with pc := .feed (bspUartAvailable s.slave.board) }
  | feedDone {late junk} (hpc : s.pc = .feed 0) : Step s (.task late junk) { s with pc := .poll }
  | feed {late junk n} (hpc : s.pc = .feed (n + 1)) (h : s.slave.modbus.sndState = .txIdle) :
    Step s (.task late junk)
      { s with
        slave.board := (xMBPortSerialGetByte late s.slave.board).2
        pc := .fsm n s.slave.modbus.rcvState
          ((xMBPortSerialGetByte late s.slave.board).1.getD junk) }
  | feedFault {late junk n} (hpc : s.pc = .feed (n + 1)) (h : s.slave.modbus.sndState ≠ .txIdle) :
    Step s (.task late junk) (s.fail .receiveSndIdle)
  | fsm {late junk n rcvState ucByte} (hpc : s.pc = .fsm n rcvState ucByte) :
    Step s (.task late junk) { s with slave := rxCase rcvState ucByte s.slave, pc := .timer n }
  | timer {late junk n} (hpc : s.pc = .timer n) :
    Step s (.task late junk) { s with slave := vMBPortTimersEnable s.slave, pc := .feed n }

/-- The first byte of a frame that is not empty. -/
theorem frame_headD {s : Sys} (h : Valid s.frame) :
    s.frame.headD 0 = s.slave.store.byte s.slave.modbus.ucRTUBuf 0 := by
  have hlen := h.1
  rw [Sys.frame, Mem.length_slice] at hlen
  rw [Sys.frame, show s.slave.modbus.usRcvBufferPos = s.slave.modbus.usRcvBufferPos - 1 + 1 by omega,
    Mem.slice_cons]
  rfl

theorem Step.of_receive {s : Sys} (hpc : s.pc = .switch .evFrameReceived) (late : Bool)
    (junk : UCHAR) : Step s (.task late junk) (s.task late junk) := by
  simp only [Sys.task, hpc]
  by_cases hpos : s.slave.modbus.usRcvBufferPos < 256
  · by_cases hv : Valid s.frame
    · rw [pollReceive_valid hpos hv]
      by_cases ha : s.slave.store.byte s.slave.modbus.ucRTUBuf 0 = s.slave.modbus.ucMBAddress ∨
          s.slave.store.byte s.slave.modbus.ucRTUBuf 0 = mbAddressBroadcast
      · rw [decide_eq_true ha]
        exact .receiveAccept hpc hpos ⟨hv, by rwa [frame_headD hv]⟩
      · rw [decide_eq_false ha]
        exact .receiveIgnore hpc hpos (fun h => ha (by rw [← frame_headD hv]; exact h.2)) _
    · rw [pollReceive_invalid hpos hv]
      exact .receiveIgnore hpc hpos (fun h => hv h.1) _
  · rw [pollReceive_full hpos]
    exact .receiveFault hpc hpos

theorem Step.of_reply {s : Sys} (hpc : s.pc = .reply) (late : Bool) (junk : UCHAR) :
    Step s (.task late junk) (s.task late junk) := by
  simp only [Sys.task, hpc]
  by_cases hr : s.slave.modbus.rcvState = .rxIdle
  · rw [pollReply_of_send (eMBRTUSend_idle _ _ _ hr)]
    exact .replySent hpc hr _ _ _ _ rfl
  · rw [pollReply_of_send (eMBRTUSend_busy _ _ _ hr)]
    exact .replyBusy hpc hr _ _

theorem Step.of_feed {s : Sys} {n : Nat} (hpc : s.pc = .feed (n + 1)) (late : Bool) (junk : UCHAR) :
    Step s (.task late junk) (s.task late junk) := by
  simp only [Sys.task, hpc, rxByte]
  by_cases hs : s.slave.modbus.sndState = .txIdle
  · rw [if_pos hs]
    exact .feed hpc hs
  · rw [if_neg hs]
    exact .feedFault hpc hs

theorem Step.of_t35 (s : Sys) : Step s .t35 s.t35 := by
  rw [Sys.t35]
  cases h : s.slave.modbus.rcvState with
  | rxInit => rw [t35Expired_init h]; exact .t35Init h
  | rxIdle => rw [t35Expired_idle h]; exact .t35Fault h
  | rxRcv => rw [t35Expired_rcv h]; exact .t35Rcv h
  | rxError => rw [t35Expired_error h]; exact .t35Error h

theorem Step.of_task (s : Sys) (late : Bool) (junk : UCHAR) :
    Step s (.task late junk) (s.task late junk) := by
  cases hpc : s.pc with
  | poll =>
    simp only [Sys.task, hpc]
    split
    · rename_i h; exact .pollEvent hpc h.1 h.2
    · rename_i h; exact .pollNone hpc h
  | got e => simp only [Sys.task, hpc]; exact .take hpc
  | switch e =>
    cases e with
    | evReady => simp only [Sys.task, hpc]; exact .ignore hpc (Or.inl rfl)
    | evFrameSent => simp only [Sys.task, hpc]; exact .ignore hpc (Or.inr rfl)
    | evFrameReceived => exact .of_receive hpc late junk
    | evExecute => simp only [Sys.task, hpc]; exact .execute hpc _ _ _ rfl
  | post => simp only [Sys.task, hpc]; exact .post hpc
  | reply => exact .of_reply hpc late junk
  | drain => simp only [Sys.task, hpc]; exact .drain hpc
  | feed n =>
    cases n with
    | zero => simp only [Sys.task, hpc]; exact .feedDone hpc
    | succ n => exact .of_feed hpc late junk
  | fsm n rcvState ucByte => simp only [Sys.task, hpc]; exact .fsm hpc
  | timer n => simp only [Sys.task, hpc]; exact .timer hpc

/-- Whatever happens is a step, and nothing happens after a failed assertion. -/
theorem Step.of_next {s t : Sys} {a : Act} (h : service.next s a = some t) :
    s.fault = none ∧ Step s a t := by
  simp only [service, Sys.next] at h
  split at h
  · rename_i hf
    refine ⟨hf, ?_⟩
    cases a with
    | rx byte => cases h; exact .rx byte
    | t35 =>
      simp only at h
      split at h
      · cases h; exact .of_t35 s
      · cases h
    | task late junk => cases h; exact .of_task s late junk
  · cases h

end Rs485.Modbus
