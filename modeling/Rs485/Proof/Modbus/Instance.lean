import Rs485.Framework.Local
import Rs485.Impl.Modbus.Multi
import Rs485.Proof.Modbus.Steps

/-!
# An action as a program on the buffer of its instance

The functions called for an instance work on its `struct eModbus` and on one
buffer (`Local`). `Instance.program` says what an action does to the instance, to
the buffer and to the static variables of `eMBPoll`, without the other instances
and the board; `ran_act` is that the source does that.
-/

namespace Rs485.Modbus

open Rs485.Framework

variable {α : Type}

/-! ## What works on one buffer -/

/-- `x` works on the object `o` alone. -/
abbrev Local (o : Obj) (x : StoreM α) : Prop := LocalTo (fun s : Store => s.mem.data) o x

section Local

variable {o : Obj} {p : Ptr Obj}

theorem local_rd (h : p.obj = o) : Local o (rd p) where
  val s t hst := by
    simp only [call_rd, h]
    exact congrFun hst _
  part _ _ hst := hst
  others _ _ _ := rfl

theorem local_wr (h : p.obj = o) (v : UCHAR) : Local o (wr p v) where
  val _ _ _ := rfl
  part s t hst := by
    subst h
    change s.mem.data p.obj = t.mem.data p.obj at hst
    simp only [call_wr, Mem.store_data_self, hst]
  others _ _ hj := Mem.store_data_obj _ _ (by rwa [h])

theorem slice_local {m m' : Mem Obj UCHAR} (h : m.data p.obj = m'.data p.obj) (n : Nat) :
    m.slice p n = m'.slice p n :=
  Mem.slice_congr fun _ _ => congrFun h _

theorem local_crc16 (h : p.obj = o) (n : Nat) : Local o (usMBCRC16 p n) where
  val s t hst := by
    subst h
    simp only [call_usMBCRC16, slice_local hst]
  part s t hst := by simpa only [call_usMBCRC16, Mem.touchN_data] using hst
  others s j _ := by simp only [call_usMBCRC16, Mem.touchN_data]

theorem local_receiveFrame {m : EModbus} (h : m.ucRTUBuf.obj = o) : Local o (receiveFrame m) :=
  .ite (fun _ => .bind (local_crc16 h _) fun _ =>
      .ite (fun _ => .bind (local_rd h) fun _ => .pure _) fun _ => .pure _) fun _ => .pure _

theorem local_errorFrame {v : PollVars} (h : v.ucMBFrame.obj = o) : Local o (errorFrame v) :=
  .ite (fun _ => .bind (local_wr h _) fun _ =>
      .bind (local_wr (p := v.ucMBFrame.add 1) h _) fun _ => .pure _) fun _ => .pure _

theorem local_buildFrame {m : EModbus} (hm : m.ucRTUBuf.obj = o) (h : p.obj = o) (a : UCHAR)
    (L : Nat) : Local o (buildFrame m a p L) :=
  .bind (local_wr (p := p.pred) h _) fun _ => .bind (local_crc16 (p := p.pred) h _) fun _ =>
    .bind (local_wr (p := m.ucRTUBuf.add _) hm _) fun _ => local_wr (p := m.ucRTUBuf.add _) hm _

theorem local_fixedExecute (R : Store) {v : PollVars} (h : v.ucMBFrame.obj = o) :
    Local o (fixedExecute R v) where
  val s t hst := by
    subst h
    change s.mem.data v.ucMBFrame.obj = t.mem.data v.ucMBFrame.obj at hst
    simp only [fixedExecute, call_modifyGet, hst]
  part s t hst := by
    subst h
    change s.mem.data v.ucMBFrame.obj = t.mem.data v.ucMBFrame.obj at hst
    simp only [fixedExecute, call_modifyGet, Function.update_self, hst]
  others s j hj := by
    simp only [fixedExecute, call_modifyGet]
    exact Function.update_of_ne (by rwa [h]) _ _

end Local

/-! ## `case EV_EXECUTE` -/

section Execute

variable {R : Store} {v w : PollVars}

theorem pollExecute_ucMBFrame (v : PollVars) (s : Store) :
    (call (pollExecute v) s).1.ucMBFrame = v.ucMBFrame := by
  simp only [pollExecute, call_bind]
  split <;> rfl

theorem errorFrame_ucMBFrame (v : PollVars) (s : Store) :
    (call (errorFrame v) s).1.ucMBFrame = v.ucMBFrame := by
  rw [errorFrame, call_ite]
  split <;> rfl

theorem errorFrame_ucRcvAddress (v : PollVars) (s : Store) :
    (call (errorFrame v) s).1.ucRcvAddress = v.ucRcvAddress := by
  rw [errorFrame, call_ite]
  split <;> rfl

/-- The handler's part uses the address, the PDU and its length, and sets the rest. -/
theorem pollExecute_congr (h : v.received = w.received) : pollExecute v = pollExecute w := by
  obtain ⟨pv, av, fv, lv, ev⟩ := v
  obtain ⟨pw, aw, fw, lw, ew⟩ := w
  simp only [PollVars.received, Prod.mk.injEq] at h
  obtain ⟨rfl, rfl, rfl⟩ := h
  rfl

theorem fixedExecute_congr (h : v.received = w.received) : fixedExecute R v = fixedExecute R w := by
  have hp := congrArg (fun r => r.2.1) h
  simp only [PollVars.received] at hp
  simp only [fixedExecute, pollExecute_congr h, hp]

/-- What `case EV_EXECUTE` does to the memory, and the variables it leaves. -/
def executeStore (execute : PollVars → StoreM PollVars) (m : EModbus) (v : PollVars) :
    StoreM PollVars := do
  let v ← execute v
  if v.ucRcvAddress ≠ mbAddressBroadcast then
    let v ← errorFrame v
    if m.rcvState = .rxIdle then
      buildFrame m m.ucMBAddress v.ucMBFrame v.usLength
      return v
    else
      return v
  else
    return v

/-- The instance after `case EV_EXECUTE` left the variables `v`. -/
def EModbus.executed (m : EModbus) (v : PollVars) : EModbus :=
  if Replies m v then
    { m with pucSndBufferCur := v.ucMBFrame.pred, usSndBufferCount := 0, sndState := .txXmit }
  else m

theorem pollExecuteReplyWith_eq (x : PollVars → StoreM PollVars) (v : PollVars) (s : Slave) :
    ∃ b : Board, b.rxQueue = s.board.rxQueue ∧
      pollExecuteReplyWith x v s = .ok ((call (executeStore x s.modbus v) s.store).1,
        { modbus := s.modbus.executed (call (executeStore x s.modbus v) s.store).1
          store := (call (executeStore x s.modbus v) s.store).2
          board := b }) := by
  simp only [pollExecuteReplyWith, executeStore, call_bind, call_ite, call_pure]
  let r := call (x v) s.store
  let w := call (errorFrame r.1) r.2
  by_cases ha : r.1.ucRcvAddress ≠ mbAddressBroadcast
  · rw [if_pos ha, if_pos ha]
    by_cases hr : s.modbus.rcvState = .rxIdle
    · have hsend := pollReply_of_send (v := r.1) (s := { s with store := r.2 })
        (eMBRTUSend_idle _ _ _ hr)
      have hw : Replies s.modbus w.1 := ⟨by rwa [errorFrame_ucRcvAddress], hr⟩
      refine ⟨(sent s.modbus.ucMBAddress w.1.ucMBFrame w.1.usLength { s with store := w.2 }).board,
        rfl, hsend.trans ?_⟩
      rw [if_pos hr, EModbus.executed, if_pos hw]
      rfl
    · have hbusy := pollReply_of_send (v := r.1) (s := { s with store := r.2 })
        (eMBRTUSend_busy _ _ _ hr)
      refine ⟨s.board, rfl, hbusy.trans ?_⟩
      rw [if_neg hr, EModbus.executed, if_neg fun h => hr h.2]
  · rw [if_neg ha, if_neg ha]
    refine ⟨s.board, rfl, ?_⟩
    rw [EModbus.executed, if_neg fun h => ha h.1]

theorem executeStore_ucMBFrame (m : EModbus) (s : Store) :
    (call (executeStore (fixedExecute R) m v) s).1.ucMBFrame = v.ucMBFrame := by
  have hx : (call (fixedExecute R v) s).1.ucMBFrame = v.ucMBFrame := pollExecute_ucMBFrame _ _
  simp only [executeStore, call_bind, call_ite, call_pure]
  split
  · split <;> exact (errorFrame_ucMBFrame _ _).trans hx
  · exact hx

theorem local_executeStore {o : Obj} {m : EModbus} (hm : m.ucRTUBuf.obj = o)
    (h : v.ucMBFrame.obj = o) : Local o (executeStore (fixedExecute R) m v) := by
  refine .bind (local_fixedExecute R h) fun s => ?_
  have hx : (call (fixedExecute R v) s).1.ucMBFrame.obj = o := by
    rwa [show (call (fixedExecute R v) s).1.ucMBFrame = v.ucMBFrame from pollExecute_ucMBFrame _ _]
  refine .ite (fun _ => .bind (local_errorFrame hx) fun t => ?_) fun _ => .pure _
  have he : (call (errorFrame (call (fixedExecute R v) s).1) t).1.ucMBFrame.obj = o := by
    rwa [errorFrame_ucMBFrame]
  exact .ite (fun _ => .bind (local_buildFrame hm he _ _) fun _ => .pure _) fun _ => .pure _

end Execute

/-! ## `eMBPoll`, event by event -/

/-- The variables after `peMBFrameReceiveCur` produced `r`. -/
def PollVars.receive (v : PollVars) : Option Received → PollVars
  | some (ucRcvAddress, ucMBFrame, usLength) =>
    { v with ucRcvAddress := ucRcvAddress, ucMBFrame := ucMBFrame, usLength := usLength }
  | none => v

/-- The instance after `case EV_FRAME_RECEIVED`. -/
def EModbus.receive (m : EModbus) : Option Received → EModbus
  | some r =>
    if r.1 = m.ucMBAddress ∨ r.1 = mbAddressBroadcast then xMBPortEventPost m .evExecute else m
  | none => m

section Poll

variable {x : PollVars → StoreM PollVars} {v : PollVars} {s : Slave}

theorem event_some {m : EModbus} {e : MBEventType} (h : m.event = some e) :
    m.eMBState = .enabled ∧ m.xEventInQueue = true ∧ m.eQueuedEvent = e := by
  rw [EModbus.event, xMBPortEventGet] at h
  split at h
  · rename_i he
    split at h
    · exact ⟨he, ‹_›, Option.some.inj h⟩
    · cases h
  · cases h

theorem poll_none (h : s.modbus.event = none) : ∃ c, eMBPollWith x v s = .ok (c, v, s) := by
  rw [EModbus.event] at h
  rw [eMBPollWith]
  by_cases he : s.modbus.eMBState = .enabled
  · rw [if_pos he, xMBPortEventGet] at h
    rw [if_neg (not_not.mpr he), xMBPortEventGet]
    split at h
    · cases h
    · rename_i hq
      exact ⟨.enoerr, by rw [if_neg hq]⟩
  · exact ⟨.eillstate, if_pos he⟩

/-- With an event waiting. -/
theorem eventGet_some {m : EModbus} {e : MBEventType} (h : m.event = some e) :
    m.eMBState = .enabled ∧ xMBPortEventGet m = (some e, xMBPortEventTake m e) := by
  obtain ⟨he, hq, rfl⟩ := event_some h
  exact ⟨he, by rw [xMBPortEventGet, if_pos hq]⟩

theorem poll_other {e : MBEventType} (h : s.modbus.event = some e)
    (he : e = .evReady ∨ e = .evFrameSent) : eMBPollWith x v s =
    .ok (.enoerr, v, { s with modbus := xMBPortEventTake s.modbus e }) := by
  obtain ⟨hs, hg⟩ := eventGet_some h
  rw [eMBPollWith, if_neg (not_not.mpr hs), hg]
  rcases he with rfl | rfl <;> rfl

theorem poll_receive (h : s.modbus.event = some .evFrameReceived) : eMBPollWith x v s =
    if s.modbus.usRcvBufferPos < 256 then
      .ok (.enoerr, v.receive (call (receiveFrame s.modbus) s.store).1,
        { s with
          modbus := (xMBPortEventTake s.modbus .evFrameReceived).receive
            (call (receiveFrame s.modbus) s.store).1
          store := receivedStore s })
    else .error .receivePos := by
  obtain ⟨hs, hg⟩ := eventGet_some h
  rw [eMBPollWith, if_neg (not_not.mpr hs), hg]
  have hr : receiveFrame (xMBPortEventTake s.modbus .evFrameReceived) = receiveFrame s.modbus := rfl
  by_cases hpos : s.modbus.usRcvBufferPos < 256
  · simp only [pollReceive, eMBRTUReceive, receivedStore, hr, xMBPortEventTake_usRcvBufferPos,
      if_pos hpos]
    cases (call (receiveFrame s.modbus) s.store).1 with
    | none => rfl
    | some r =>
      rw [EModbus.receive, xMBPortEventTake_ucMBAddress]
      by_cases ha : r.1 = s.modbus.ucMBAddress ∨ r.1 = mbAddressBroadcast
      · rw [if_pos ha]
        exact if_pos (decide_eq_true ha)
      · rw [if_neg ha]
        exact if_neg (by simpa using ha)
  · simp only [pollReceive, eMBRTUReceive, xMBPortEventTake_usRcvBufferPos, if_neg hpos]
    rfl

theorem poll_execute (h : s.modbus.event = some .evExecute) :
    ∃ b : Board, b.rxQueue = s.board.rxQueue ∧ eMBPollWith x v s =
      .ok (.enoerr, (call (executeStore x (xMBPortEventTake s.modbus .evExecute) v) s.store).1,
        { modbus := (xMBPortEventTake s.modbus .evExecute).executed
            (call (executeStore x (xMBPortEventTake s.modbus .evExecute) v) s.store).1
          store := (call (executeStore x (xMBPortEventTake s.modbus .evExecute) v) s.store).2
          board := b }) := by
  obtain ⟨hs, hg⟩ := eventGet_some h
  obtain ⟨b, hb, hx⟩ := pollExecuteReplyWith_eq x v
    { s with modbus := xMBPortEventTake s.modbus .evExecute }
  refine ⟨b, hb, ?_⟩
  rw [eMBPollWith, if_neg (not_not.mpr hs), hg]
  simp only [hx]
  rfl

end Poll

/-! ## An action as a program on the buffer of its instance -/

/-- The `n` cells from `p` on. -/
def rdSlice (p : Ptr Obj) (n : Nat) : StoreM (List UCHAR) :=
  modifyGet fun s => (s.mem.slice p n, s)

/-- The receiver takes `byte`. -/
def rxProgram (m : EModbus) (byte : UCHAR) : StoreM EModbus :=
  match m.rcvState with
  | .rxInit | .rxError => return m
  | .rxIdle => do
    wr m.ucRTUBuf byte
    return { m with usRcvBufferPos := 1, rcvState := .rxRcv }
  | .rxRcv =>
    if m.usRcvBufferPos < 256 then do
      wr (m.ucRTUBuf.add m.usRcvBufferPos) byte
      return { m with usRcvBufferPos := m.usRcvBufferPos + 1 }
    else
      return { m with rcvState := .rxError }

/-- The instance after T3.5. -/
def EModbus.t35 (m : EModbus) : Option EModbus :=
  match m.rcvState with
  | .rxInit => some { xMBPortEventPost m .evReady with rcvState := .rxIdle }
  | .rxRcv => some { xMBPortEventPost m .evFrameReceived with rcvState := .rxIdle }
  | .rxError => some { m with rcvState := .rxIdle }
  | .rxIdle => none

/-- The instance after `xMBRTUTransmitFSM`. -/
def EModbus.transmit (m : EModbus) : Option EModbus :=
  if m.rcvState = .rxIdle then
    if m.sndState = .txIdle then some m
    else if m.usSndBufferCount ≠ 0 then some { m with usSndBufferCount := 0 }
    else some { xMBPortEventPost m .evFrameSent with sndState := .txIdle }
  else none

/-- `case EV_FRAME_RECEIVED`: the instance afterwards, and what became of the variables. -/
def Instance.receiveProgram (u : Instance) : StoreM (Instance × (PollVars → PollVars)) := do
  let r ← receiveFrame u.modbus
  let m := (xMBPortEventTake u.modbus .evFrameReceived).receive r
  return ({ u with modbus := m, last := r.or u.last }, fun v => v.receive r)

/-- `case EV_EXECUTE` with the variables `v`. -/
def Instance.executeProgram (R : Store) (u : Instance) (v : PollVars) :
    StoreM (Instance × (PollVars → PollVars)) := do
  let w ← executeStore (fixedExecute R) (xMBPortEventTake u.modbus .evExecute) v
  let frame ← rdSlice w.ucMBFrame.pred (1 + w.usLength + 2)
  return ({ u with
    modbus := (xMBPortEventTake u.modbus .evExecute).executed w
    used := u.used ++ [(v.received, u.last)]
    replies := if Replies u.modbus w then u.replies ++ [frame] else u.replies }, fun _ => w)

/-- What a poll does to the instance and to the variables, of which it finds the values `v`. -/
def Instance.pollProgram (R : Store) (u : Instance) (v : PollVars) :
    Option (StoreM (Instance × (PollVars → PollVars))) :=
  match u.modbus.event with
  | none => some (return (u, id))
  | some .evFrameReceived => if u.modbus.usRcvBufferPos < 256 then some u.receiveProgram else none
  | some .evExecute => some (u.executeProgram R v)
  | some e => some (return ({ u with modbus := xMBPortEventTake u.modbus e }, id))

/-- What happens to the instance, if no assertion fails. -/
def Instance.program (R : Store) (u : Instance) (v : PollVars) :
    MultiOp → Option (StoreM (Instance × (PollVars → PollVars)))
  | .poll => u.pollProgram R v
  | .rx byte =>
    if u.modbus.sndState = .txIdle then some do
      let m ← rxProgram u.modbus byte
      return ({ u with modbus := m }, id)
    else none
  | .t35 => u.modbus.t35.map fun m => return ({ u with modbus := m }, id)
  | .txEmpty => u.modbus.transmit.map fun m => return ({ u with modbus := m }, id)

/-- The state in which the instance `i` has run the program `x`. -/
def Multi.ran {n : Nat} (s : Multi n) (i : Fin n)
    (x : StoreM (Instance × (PollVars → PollVars))) (b : Board) : Multi n where
  inst := Function.update s.inst i (call x s.store).1.1
  store := (call x s.store).2
  board := b
  vars := (call x s.store).1.2 s.vars

section Program

variable {s : Slave}

theorem arrive_eq (byte : UCHAR) (h : s.board.rxQueue.length < 256) : Multi.arrive byte s =
    if s.modbus.sndState = .txIdle then
      .ok (vMBPortTimersEnable (rxCase s.modbus.rcvState byte s))
    else .error .receiveSndIdle := by
  rw [Multi.arrive, xMBRTUReceiveFSM, rxByte, bspUartRxCb, if_pos h]
  split <;> rfl

theorem rxCase_eq {st : MBRcvState} (h : s.modbus.rcvState = st) (byte : UCHAR) :
    rxCase st byte s =
      { modbus := (call (rxProgram s.modbus byte) s.store).1
        store := (call (rxProgram s.modbus byte) s.store).2
        board := s.board } := by
  cases st with
  | rxRcv =>
    simp only [rxCase, rxProgram, h, call_ite]
    split <;> rfl
  | _ =>
    simp only [rxCase, rxProgram, h]
    rfl

theorem timersEnable_rxQueue (s : Slave) :
    (vMBPortTimersEnable s).board.rxQueue = s.board.rxQueue := by
  rw [vMBPortTimersEnable]
  split <;> rfl

theorem expired_rxQueue (m : EModbus) (s : Slave) :
    (expired m s).board.rxQueue = s.board.rxQueue := by
  rw [expired, vMBPortTimersDisable]
  split <;> rfl

/-- What became of the slave if `m` became of its instance. -/
def Becomes (s : Slave) (r : Except Assertion Slave) : Option EModbus → Prop
  | none => ∃ e, r = .error e
  | some m => ∃ b : Board, b.rxQueue = s.board.rxQueue ∧ r = .ok ⟨m, s.store, b⟩

theorem becomes_t35 (s : Slave) : Becomes s (xMBRTUTimerT35Expired s) s.modbus.t35 := by
  have h (m : EModbus) : Becomes s (.ok (expired m s)) (some { m with rcvState := .rxIdle }) :=
    ⟨(expired m s).board, expired_rxQueue m s, by
      rw [← expired_modbus m s, ← expired_store m s]⟩
  rw [EModbus.t35]
  cases hr : s.modbus.rcvState with
  | rxInit => rw [t35Expired_init hr]; exact h _
  | rxIdle => rw [t35Expired_idle hr]; exact ⟨_, rfl⟩
  | rxRcv => rw [t35Expired_rcv hr]; exact h _
  | rxError => rw [t35Expired_error hr]; exact h _

theorem becomes_transmit (s : Slave) : Becomes s (xMBRTUTransmitFSM s) s.modbus.transmit := by
  rw [EModbus.transmit]
  by_cases hr : s.modbus.rcvState = .rxIdle
  · rw [if_pos hr]
    by_cases hs : s.modbus.sndState = .txIdle
    · rw [if_pos hs, xMBRTUTransmitFSM, if_pos hr, hs]
      exact ⟨{ s.board with rs485De := false }, rfl, rfl⟩
    · have hx : s.modbus.sndState = .txXmit := by
        cases h : s.modbus.sndState with
        | txIdle => exact absurd h hs
        | txXmit => rfl
      rw [if_neg hs]
      by_cases hc : s.modbus.usSndBufferCount ≠ 0
      · rw [if_pos hc]
        refine ⟨_, ?_, transmit_xmit hr hx hc⟩
        rfl
      · rw [if_neg hc, xMBRTUTransmitFSM, if_pos hr, hx]
        simp only [if_neg hc]
        exact ⟨{ s.board with rs485De := false }, rfl, rfl⟩
  · rw [if_neg hr, xMBRTUTransmitFSM, if_neg hr]
    exact ⟨_, rfl⟩

end Program

/-- What became of the system if the instance `i` ran a program. -/
def Multi.Ran {n : Nat} (s : Multi n) (i : Fin n) (r : Except Assertion (Multi n)) :
    Option (StoreM (Instance × (PollVars → PollVars))) → Prop
  | none => ∃ e, r = .error e
  | some x => ∃ b : Board, b.rxQueue = [] ∧ r = .ok (s.ran i x b)

/-- The frame that is handed to the port begins before the PDU. -/
theorem replies_executed (m : EModbus) (w : PollVars) (fs : List (List UCHAR)) (mem : Mem Obj UCHAR) :
    (if Replies m w then fs ++ [mem.slice ((xMBPortEventTake m .evExecute).executed w).pucSndBufferCur
      (1 + w.usLength + 2)] else fs) =
      if Replies m w then fs ++ [mem.slice w.ucMBFrame.pred (1 + w.usLength + 2)] else fs := by
  split
  · rename_i h
    rw [EModbus.executed, if_pos (show Replies (xMBPortEventTake m .evExecute) w from h)]
  · rfl

section Act

variable {n : Nat} {s : Multi n}

theorem Multi.slave_modbus (i : Fin n) : (s.slave i).modbus = (s.inst i).modbus := rfl

variable (hq : s.board.rxQueue = []) (i : Fin n) (R : Store)
include hq

theorem ran_callback {f : Slave → Except Assertion Slave} {m : Option EModbus}
    (h : Becomes (s.slave i) (f (s.slave i)) m) :
    s.Ran i (s.callback i f) (m.map fun m => return ({ s.inst i with modbus := m }, id)) := by
  cases m with
  | none =>
    obtain ⟨e, he⟩ := h
    exact ⟨e, by rw [Multi.callback, he]; rfl⟩
  | some m =>
    obtain ⟨b, hb, ht⟩ := h
    exact ⟨b, hb.trans hq, by rw [Multi.callback, ht]; rfl⟩

theorem ran_rx (byte : UCHAR) :
    s.Ran i (s.callback i (Multi.arrive byte)) ((s.inst i).program R s.vars (.rx byte)) := by
  have hroom : (s.slave i).board.rxQueue.length < 256 := by
    rw [Multi.slave, hq]
    decide
  rw [Multi.callback, arrive_eq byte hroom, Instance.program, Multi.slave_modbus]
  by_cases h : (s.inst i).modbus.sndState = .txIdle
  · rw [if_pos h, if_pos h]
    have hrx := rxCase_eq (s := s.slave i) rfl byte
    refine ⟨(vMBPortTimersEnable (rxCase (s.inst i).modbus.rcvState byte (s.slave i))).board, ?_, ?_⟩
    · rw [timersEnable_rxQueue, rxCase_board]
      exact hq
    · simp only [bind, Except.bind, pure, Except.pure, Multi.put, timersEnable_modbus,
        timersEnable_store]
      rw [Multi.slave_modbus] at hrx
      rw [hrx]
      rfl
  · rw [if_neg h, if_neg h]
    exact ⟨_, rfl⟩

theorem ran_poll : s.Ran i (s.poll R i) ((s.inst i).pollProgram R s.vars) := by
  rw [Multi.poll, Instance.pollProgram]
  cases he : (s.inst i).modbus.event with
  | none =>
    obtain ⟨c, hp⟩ := poll_none (x := fixedExecute R) (v := s.vars) (s := s.slave i) he
    refine ⟨s.board, hq, ?_⟩
    simp only [hp, Instance.polled, he]
    rfl
  | some e =>
    cases e with
    | evReady =>
      refine ⟨s.board, hq, ?_⟩
      rw [poll_other he (Or.inl rfl)]
      simp only [Instance.polled, he]
      rfl
    | evFrameSent =>
      refine ⟨s.board, hq, ?_⟩
      rw [poll_other he (Or.inr rfl)]
      simp only [Instance.polled, he]
      rfl
    | evFrameReceived =>
      rw [poll_receive he, Multi.slave_modbus]
      by_cases hpos : (s.inst i).modbus.usRcvBufferPos < 256
      · rw [if_pos hpos, if_pos hpos]
        refine ⟨s.board, hq, ?_⟩
        simp only [Instance.polled, he]
        rfl
      · rw [if_neg hpos, if_neg hpos]
        exact ⟨_, rfl⟩
    | evExecute =>
      obtain ⟨b, hb, hp⟩ := poll_execute (x := fixedExecute R) (v := s.vars) (s := s.slave i) he
      refine ⟨b, hb.trans hq, ?_⟩
      rw [hp]
      show Except.ok (s.put i ((s.inst i).polled s.vars s.store _ _) _ _) = _
      simp only [Instance.polled, he]
      rw [Multi.slave_modbus, replies_executed]
      rfl

/-- An action is the program of its instance. -/
theorem ran_act (a : MultiAct n) :
    s.Ran a.i (s.act R a) ((s.inst a.i).program R s.vars a.op) := by
  obtain ⟨i, op⟩ := a
  cases op with
  | poll => exact ran_poll hq i R
  | rx byte => exact ran_rx hq i R byte
  | t35 => exact ran_callback hq i (becomes_t35 (s.slave i))
  | txEmpty => exact ran_callback hq i (becomes_transmit (s.slave i))

end Act

end Rs485.Modbus
