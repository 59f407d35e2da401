import Rs485.Proof.Modbus.Dispatch

/-!
# The event slot

The slot holds one event, and a completed frame waits in the one buffer until
`eMBPoll` has looked at it. Where frames do not come faster than the task polls
(`InTime`) no event is overwritten, and the frames completed for this slave are
those dispatched, each once, but for one that is on its way and that three
polls are enough for (`events_kept`).
-/

namespace Rs485.Modbus

open Rs485.Framework

/-- The frame is one that the slave has to serve: valid, of 255 bytes at most, and addressed
to `a` or to all. -/
def ForUs (a : UCHAR) (f : List UCHAR) : Prop := ForSlave a f ∧ f.length ≤ 255

instance (a : UCHAR) (f : List UCHAR) : Decidable (ForUs a f) :=
  inferInstanceAs (Decidable (_ ∧ _))

/-! ## What a run did -/

/-- The frames for the slave that were completed, the latest first. -/
def accepted (a : UCHAR) : List Obs → List (List UCHAR)
  | [] => []
  | .completed f :: h => if ForUs a f then f :: accepted a h else accepted a h
  | _ :: h => accepted a h

/-- The frames that a handler was called for, the latest first. -/
def dispatched : List Obs → List (List UCHAR)
  | [] => []
  | .executed _ :: h => (lastValidated h).toList ++ dispatched h
  | _ :: h => dispatched h

/-- The calls of `eMBPoll` since a frame for the slave was completed. -/
def pollsSince (a : UCHAR) : List Obs → Nat
  | [] => 0
  | .completed f :: h => if ForUs a f then 0 else pollsSince a h
  | .polled :: h => pollsSince a h + 1
  | _ :: h => pollsSince a h

/-! ## The guard -/

/-- `EV_FRAME_RECEIVED` waits in the slot. -/
def ReceivedQueued (m : EModbus) : Prop :=
  m.xEventInQueue = true ∧ m.eQueuedEvent = .evFrameReceived

instance (m : EModbus) : Decidable (ReceivedQueued m) := inferInstanceAs (Decidable (_ ∧ _))

/-- The state that `xMBRTUReceiveFSM` has read. -/
def stateRead : TaskPc → Option MBRcvState
  | .fsm _ rcvState _ => some rcvState
  | _ => none

/-- The step comes in time. A frame is completed only while no event waits, and not while
`eMBPoll` has the buffer in use for another one; the task stores no byte over a frame
that waits, nor one that a T3.5 has overtaken; and it does not look at a frame for the
slave that is not yet completed. -/
def InTime (s : Sys) : Act → Prop
  | .rx _ => True
  | .t35 => s.slave.modbus.rcvState = .rxRcv →
    s.slave.modbus.xEventInQueue = false ∧ s.pc ≠ .switch .evExecute ∧ s.pc ≠ .reply ∧
      (s.pc = .switch .evFrameReceived → ¬ ForUs s.slave.modbus.ucMBAddress s.frame)
  | .task _ _ =>
    (s.pc = .switch .evFrameReceived → s.slave.modbus.rcvState = .rxRcv →
      ¬ ForUs s.slave.modbus.ucMBAddress s.frame) ∧
    (stateRead s.pc = some .rxIdle → ReceivedQueued s.slave.modbus →
      ¬ ForUs s.slave.modbus.ucMBAddress s.frame) ∧
    (stateRead s.pc = some .rxRcv → s.slave.modbus.rcvState = .rxRcv)

instance (s : Sys) : (a : Act) → Decidable (InTime s a)
  | .rx _ => inferInstanceAs (Decidable True)
  | .t35 => inferInstanceAs (Decidable (_ → _))
  | .task _ _ => inferInstanceAs (Decidable (_ ∧ _))

/-! ## The slot -/

/-- The event in the slot. -/
def queued (m : EModbus) : List MBEventType := if m.xEventInQueue then [m.eQueuedEvent] else []

/-- The case of `xMBRTUReceiveFSM` does not go back to `STATE_RX_INIT`. -/
theorem rxCase_init {rcvState : MBRcvState} {b : UCHAR} {s : Slave}
    (h : (rxCase rcvState b s).modbus.rcvState = .rxInit) : s.modbus.rcvState = .rxInit := by
  cases rcvState with
  | rxInit => exact h
  | rxError => exact h
  | rxIdle => cases h
  | rxRcv =>
    rw [rxCase] at h
    split at h
    · exact h
    · cases h

/-- In `STATE_RX_ERROR` the buffer is full. -/
theorem rxCase_error {rcvState : MBRcvState} {b : UCHAR} {s : Slave}
    (hok : rcvState = .rxRcv → s.modbus.rcvState = .rxRcv)
    (herr : s.modbus.rcvState = .rxError → ¬ s.modbus.usRcvBufferPos < 256)
    (h : (rxCase rcvState b s).modbus.rcvState = .rxError) :
    ¬ (rxCase rcvState b s).modbus.usRcvBufferPos < 256 := by
  cases rcvState with
  | rxInit => exact herr h
  | rxError => exact herr h
  | rxIdle => cases h
  | rxRcv =>
    rw [rxCase] at h ⊢
    split at h
    · cases h.symm.trans (hok rfl)
    · rename_i hpos
      rwa [if_neg hpos]

/-- The slot along a run: it is free where the poll is to post, and what it holds while the
poll works is known. -/
structure SlotInv (s : Sys) : Prop where
  enabled : s.slave.modbus.eMBState = .enabled
  posted : s.slave.modbus.posted = queued s.slave.modbus ++ s.slave.modbus.got
  init : s.slave.modbus.rcvState = .rxInit →
    s.slave.modbus.xEventInQueue = false ∧ ¬ HasEvent s.pc
  error : s.slave.modbus.rcvState = .rxError → ¬ s.slave.modbus.usRcvBufferPos < 256
  got : ∀ e, s.pc = .got e →
    s.slave.modbus.xEventInQueue = true ∧ s.slave.modbus.eQueuedEvent = e
  received : s.pc = .switch .evFrameReceived → s.slave.modbus.xEventInQueue = true →
    s.slave.modbus.eQueuedEvent = .evFrameReceived ∧
      ¬ ForUs s.slave.modbus.ucMBAddress s.frame
  free : s.pc = .switch .evExecute ∨ s.pc = .post ∨ s.pc = .reply →
    s.slave.modbus.xEventInQueue = false
  post : s.pc = .post → s.slave.modbus.rcvState ≠ .rxRcv

section

variable {s t : Sys} {a : Act}

/-- Where the task is draining, `eMBPoll` has no event at hand. -/
theorem SlotInv.draining (hpc : Draining s.pc) (hen : s.slave.modbus.eMBState = .enabled)
    (hposted : s.slave.modbus.posted = queued s.slave.modbus ++ s.slave.modbus.got)
    (hinit : s.slave.modbus.rcvState = .rxInit → s.slave.modbus.xEventInQueue = false)
    (herr : s.slave.modbus.rcvState = .rxError → ¬ s.slave.modbus.usRcvBufferPos < 256) :
    SlotInv s where
  enabled := hen
  posted := hposted
  init h := ⟨hinit h, hpc.not_hasEvent⟩
  error := herr
  got e h := by
    rw [h] at hpc
    exact hpc.elim
  received h := by
    rw [h] at hpc
    exact hpc.elim
  free h := by
    rcases h with h | h | h
    all_goals
      rw [h] at hpc
      exact hpc.elim
  post h := by
    rw [h] at hpc
    exact hpc.elim

theorem SlotInv.of_init (h : service.init s) : SlotInv s := by
  have hb := Booted.of_init h
  refine .draining (by rw [hb.pc]; trivial) hb.eMBState ?_ (fun _ => hb.xEventInQueue) fun he => ?_
  · simp [queued, hb.xEventInQueue, hb.posted, hb.got]
  · cases hb.rcvState.symm.trans he

/-- While the slot is empty `eMBPoll` is not about to empty it. -/
theorem SlotInv.ne_got (h : SlotInv s) (hq : s.slave.modbus.xEventInQueue = false)
    (e : MBEventType) : s.pc ≠ .got e := by
  intro he
  cases hq.symm.trans (h.got e he).1

theorem forUs_frame (hpos : s.slave.modbus.usRcvBufferPos < 256)
    (h : ForSlave s.slave.modbus.ucMBAddress s.frame) :
    ForUs s.slave.modbus.ucMBAddress s.frame :=
  ⟨h, by rw [Sys.frame, Mem.length_slice]; omega⟩

/-- When `eMBPoll` is to look at a frame for the slave, no other event has come. -/
theorem SlotInv.empty (h : SlotInv s) (hpc : s.pc = .switch .evFrameReceived)
    (hfor : ForUs s.slave.modbus.ucMBAddress s.frame) : s.slave.modbus.xEventInQueue = false := by
  by_contra hq
  exact (h.received hpc (by simpa using hq)).2 hfor

theorem SlotInv.step (h : SlotInv s) (hok : InTime s a) (hs : Step s a t) : SlotInv t := by
  have hgot' := h.ne_got
  have hempty := h.empty
  obtain ⟨hen, hposted, hinit, herr, hgot, hrec, hfree, hpost⟩ := h
  have hevent {pc : TaskPc} (hpc : s.pc = pc) (he : HasEvent pc) :
      s.slave.modbus.rcvState ≠ .rxInit := by
    intro hr
    exact (hinit hr).2 (by rwa [hpc])
  cases hs with
  | rx byte => exact ⟨hen, hposted, hinit, herr, hgot, hrec, hfree, hpost⟩
  | t35Init h =>
    have hq := (hinit h).1
    refine ⟨hen, ?_, fun hr => ?_, fun hr => ?_, fun e he => absurd he (hgot' hq e), fun he => ?_,
      fun he => ?_, fun he => ?_⟩
    · simpa [queued, hq] using hposted
    · cases hr
    · cases hr
    · exact absurd h (hevent he trivial)
    · rcases he with he | he | he
      all_goals exact absurd h (hevent he trivial)
    · exact absurd h (hevent he trivial)
  | t35Rcv h =>
    obtain ⟨hq, hx, hr, hf⟩ := hok h
    refine ⟨hen, ?_, fun hr => ?_, fun hr => ?_, fun e he => absurd he (hgot' hq e),
      fun he _ => ⟨rfl, ?_⟩, fun he => ?_, fun he => ?_⟩
    · simpa [queued, hq] using hposted
    · cases hr
    · cases hr
    · simpa [Sys.frame, EModbus.ucRTUBuf] using hf he
    · rcases he with he | he | he
      · exact absurd he hx
      · exact absurd h (hpost he)
      · exact absurd he hr
    · exact absurd h (hpost he)
  | t35Error h =>
    refine ⟨hen, hposted, fun hr => ?_, fun hr => ?_, hgot, fun he hq => ?_, hfree, fun _ hr => ?_⟩
    · cases hr
    · cases hr
    · simpa [Sys.frame, EModbus.ucRTUBuf] using hrec he hq
    · cases hr
  | t35Fault h => exact ⟨hen, hposted, hinit, herr, hgot, hrec, hfree, hpost⟩
  | pollNone hpc h => exact .draining trivial hen hposted (fun hr => (hinit hr).1) herr
  | pollEvent hpc he hq =>
    have hne : s.slave.modbus.rcvState ≠ .rxInit := by
      intro hr
      cases (hinit hr).1.symm.trans hq
    refine ⟨hen, hposted, fun hr => absurd hr hne, herr, fun e he => ?_, fun he => ?_, fun he => ?_,
      fun he => ?_⟩
    · cases he
      exact ⟨hq, rfl⟩
    · cases he
    · rcases he with he | he | he <;> cases he
    · cases he
  | take hpc =>
    obtain ⟨hq, hslot⟩ := hgot _ hpc
    have hne : s.slave.modbus.rcvState ≠ .rxInit := by
      intro hr
      cases (hinit hr).1.symm.trans hq
    refine ⟨hen, ?_, fun hr => absurd hr hne, herr, fun e he => ?_, fun _ he => ?_, fun _ => rfl,
      fun he => ?_⟩
    · simpa [queued, hq, hslot] using hposted
    · cases he
    · cases he
    · cases he
  | receiveFault hpc h => exact ⟨hen, hposted, hinit, herr, hgot, hrec, hfree, hpost⟩
  | receiveAccept hpc hpos h =>
    have hfor := forUs_frame hpos h
    refine ⟨hen, hposted, fun hr => absurd hr (hevent hpc trivial), herr, fun e he => ?_, fun he => ?_,
      fun _ => hempty hpc hfor, fun _ hr => hok.1 hpc hr hfor⟩
    · cases he
    · cases he
  | receiveIgnore hpc hpos h vars =>
    exact .draining trivial hen hposted (fun hr => absurd hr (hevent hpc trivial)) herr
  | execute hpc store vars pc hpc' =>
    have hne := hevent hpc trivial
    have hq := hfree (Or.inl hpc)
    split at hpc'
    · subst hpc'
      refine ⟨hen, hposted, fun hr => absurd hr hne, herr, fun e he => ?_, fun he => ?_, fun _ => hq,
        fun he => ?_⟩
      all_goals cases he
    · subst hpc'
      exact .draining trivial hen hposted (fun hr => absurd hr hne) herr
  | ignore hpc h =>
    exact .draining trivial hen hposted (fun hr => absurd hr (hevent hpc trivial)) herr
  | post hpc =>
    have hq := hfree (Or.inr (Or.inl hpc))
    refine .draining trivial hen ?_ (fun hr => absurd hr (hevent hpc trivial)) herr
    simpa [queued, hq] using hposted
  | replySent hpc h p store vars board hb =>
    exact .draining trivial hen hposted (fun hr => absurd hr (hevent hpc trivial)) herr
  | replyBusy hpc h store vars =>
    exact .draining trivial hen hposted (fun hr => absurd hr (hevent hpc trivial)) herr
  | drain hpc => exact .draining trivial hen hposted (fun hr => (hinit hr).1) herr
  | feedDone hpc => exact .draining trivial hen hposted (fun hr => (hinit hr).1) herr
  | feed hpc h => exact .draining trivial hen hposted (fun hr => (hinit hr).1) herr
  | feedFault hpc h => exact ⟨hen, hposted, hinit, herr, hgot, hrec, hfree, hpost⟩
  | fsm hpc =>
    refine .draining trivial (by simpa using hen) (by simpa [queued] using hposted) (fun hr => ?_)
      fun hr => ?_
    · simpa using (hinit (rxCase_init hr)).1
    · exact rxCase_error (fun hst => hok.2.2 (by rw [hpc, stateRead, hst])) herr hr
  | timer hpc =>
    refine .draining trivial (by simpa using hen) (by simpa using hposted) (fun hr => ?_) fun hr => ?_
    · simpa using (hinit (by simpa using hr)).1
    · simpa using herr (by simpa using hr)

theorem SlotInv.reach (h : service.Reach InTime s) : SlotInv s :=
  h.inv (fun _ hi => .of_init hi) fun _ _ _ hI hok hn => hI.step hok (Step.of_next hn).2

end

/-! ## The frame in flight -/

/-- A frame for the slave waits to be looked at. -/
def Waiting (s : Sys) : Prop :=
  (ReceivedQueued s.slave.modbus ∨ s.pc = .switch .evFrameReceived) ∧
    s.slave.modbus.rcvState ≠ .rxRcv ∧ ForUs s.slave.modbus.ucMBAddress s.frame

instance (s : Sys) : Decidable (Waiting s) := inferInstanceAs (Decidable (_ ∧ _))

instance (s : Sys) : Decidable (ExecutePending s) := inferInstanceAs (Decidable (_ ∨ _))

/-- The frame that was completed for the slave and not yet dispatched. -/
def inFlight (s : Sys) : List (List UCHAR) :=
  if Waiting s then [s.frame]
  else if ExecutePending s then (lastValidated s.hist).toList
  else []

/-- No frame is in flight. -/
def Idle (s : Sys) : Prop := ¬ Waiting s ∧ ¬ ExecutePending s

/-- The call of `eMBPoll` that has taken `e`, or is about to. -/
def polling (e : MBEventType) : TaskPc → Nat
  | .got e' | .switch e' => if e' = e then 1 else 0
  | _ => 0

/-- The frames for the slave are balanced by those dispatched and the one in flight, which
is looked at in the first and executed in the second poll after it was completed. -/
structure Ledger (s : Sys) : Prop where
  balance : accepted s.slave.modbus.ucMBAddress s.hist = inFlight s ++ dispatched s.hist
  waiting : Waiting s →
    pollsSince s.slave.modbus.ucMBAddress s.hist ≤ polling .evFrameReceived s.pc
  pending : ExecutePending s →
    pollsSince s.slave.modbus.ucMBAddress s.hist ≤ 1 + polling .evExecute s.pc

section

variable {s t : Sys} {a : Act}

theorem frame_congr (hid : t.slave.modbus.id = s.slave.modbus.id)
    (hpos : t.slave.modbus.usRcvBufferPos = s.slave.modbus.usRcvBufferPos)
    (hd : t.slave.store.mem.data = s.slave.store.mem.data) : t.frame = s.frame := by
  rw [Sys.frame, Sys.frame, EModbus.ucRTUBuf, EModbus.ucRTUBuf, hid, hpos]
  exact Mem.slice_congr fun i _ => by rw [hd]

theorem inFlight_waiting (h : Waiting s) : inFlight s = [s.frame] := if_pos h

theorem inFlight_pending (hw : ¬ Waiting s) (h : ExecutePending s) :
    inFlight s = (lastValidated s.hist).toList := by
  rw [inFlight, if_neg hw, if_pos h]

theorem Idle.inFlight (h : Idle s) : inFlight s = [] := by
  rw [Modbus.inFlight, if_neg h.1, if_neg h.2]

theorem length_inFlight (s : Sys) : (inFlight s).length ≤ 1 := by
  rw [inFlight]
  split
  · simp
  · split
    · cases lastValidated s.hist <;> simp
    · simp

theorem waiting_iff (h : Draining s.pc) : Waiting s ↔ ReceivedQueued s.slave.modbus ∧
    s.slave.modbus.rcvState ≠ .rxRcv ∧ ForUs s.slave.modbus.ucMBAddress s.frame := by
  have hpc : s.pc ≠ .switch .evFrameReceived := fun hpc => by rw [hpc] at h; exact h
  simp [Waiting, hpc]

theorem not_waiting (hq : s.slave.modbus.xEventInQueue = false)
    (hpc : s.pc ≠ .switch .evFrameReceived) : ¬ Waiting s := by
  rintro ⟨h | h, -⟩
  · cases hq.symm.trans h.1
  · exact hpc h

theorem not_waiting_full (h : ¬ s.slave.modbus.usRcvBufferPos < 256) : ¬ Waiting s := by
  rintro ⟨-, -, -, hlen⟩
  rw [Sys.frame, Mem.length_slice] at hlen
  omega

theorem not_pending (hq : s.slave.modbus.xEventInQueue = false) (h₁ : s.pc ≠ .post)
    (h₂ : s.pc ≠ .got .evExecute) (h₃ : s.pc ≠ .switch .evExecute) : ¬ ExecutePending s := by
  intro h
  cases hq.symm.trans (h.queued h₁ h₂ h₃).1

/-- Where the task is draining, nothing is in flight if the slot is empty. -/
theorem idle_draining (hpc : Draining s.pc) (hq : s.slave.modbus.xEventInQueue = false) :
    Idle s := by
  rw [Idle, waiting_iff hpc, executePending_iff hpc]
  refine ⟨fun h => ?_, fun h => ?_⟩
  · cases hq.symm.trans h.1.1
  · cases hq.symm.trans h.1

theorem idle_reply (hpc : s.pc = .reply) (hq : s.slave.modbus.xEventInQueue = false) : Idle s :=
  ⟨not_waiting hq (by simp [hpc]), not_pending hq (by simp [hpc]) (by simp [hpc]) (by simp [hpc])⟩

theorem Ledger.of_init (h : service.init s) : Ledger s := by
  have hb := Booted.of_init h
  have hs : Idle s := idle_draining (by rw [hb.pc]; trivial) hb.xEventInQueue
  refine ⟨?_, fun h => absurd h hs.1, fun h => absurd h hs.2⟩
  rw [hs.inFlight, hb.hist]
  rfl

/-- Where nothing is in flight before or after. -/
theorem Ledger.idle (h : Ledger s)
    (hacc : accepted t.slave.modbus.ucMBAddress t.hist = accepted s.slave.modbus.ucMBAddress s.hist)
    (hdis : dispatched t.hist = dispatched s.hist) (hs : Idle s) (ht : Idle t) : Ledger t := by
  refine ⟨?_, fun h => absurd h ht.1, fun h => absurd h ht.2⟩
  rw [ht.inFlight, hacc, hdis, h.balance, hs.inFlight]

/-- Where the same frame is in flight before and after. -/
theorem Ledger.congr (h : Ledger s) (hh : t.hist = s.hist)
    (ha : t.slave.modbus.ucMBAddress = s.slave.modbus.ucMBAddress)
    (hf : Waiting s → t.frame = s.frame) (hw : Waiting t ↔ Waiting s) (hx : ExecutePending t ↔ ExecutePending s)
    (hpw : polling .evFrameReceived t.pc = polling .evFrameReceived s.pc)
    (hpx : polling .evExecute t.pc = polling .evExecute s.pc) : Ledger t := by
  have hfly : inFlight t = inFlight s := by
    by_cases hws : Waiting s
    · rw [inFlight_waiting hws, inFlight_waiting (hw.mpr hws), hf hws]
    · simp only [inFlight, hw, hx, hh, if_neg hws]
  refine ⟨?_, fun h' => ?_, fun h' => ?_⟩
  · rw [hfly, hh, ha, h.balance]
  · rw [hh, ha, hpw]
    exact h.waiting (hw.mp h')
  · rw [hh, ha, hpx]
    exact h.pending (hx.mp h')

theorem polling_draining (e : MBEventType) {pc : TaskPc} (h : Draining pc) : polling e pc = 0 := by
  cases pc with
  | got | switch => exact h.elim
  | _ => rfl

theorem polling_le (e : MBEventType) (pc : TaskPc) : polling e pc ≤ 1 := by
  cases pc with
  | got | switch =>
    rw [polling]
    split <;> decide
  | _ => exact Nat.zero_le 1

/-- Where the task goes on draining. -/
theorem Ledger.drain (h : Ledger s) (hpc : Draining s.pc) (hpc' : Draining t.pc)
    (hm : t.slave.modbus = s.slave.modbus) (hst : t.slave.store = s.slave.store)
    (hh : t.hist = s.hist) : Ledger t := by
  have hf : t.frame = s.frame := by rw [Sys.frame, Sys.frame, hm, hst]
  refine h.congr hh (by rw [hm]) (fun _ => hf) ?_ ?_ ?_ ?_
  · rw [waiting_iff hpc, waiting_iff hpc', hm, hf]
  · rw [executePending_iff hpc, executePending_iff hpc', hm]
  · rw [polling_draining _ hpc, polling_draining _ hpc']
  · rw [polling_draining _ hpc, polling_draining _ hpc']

/-- A frame is completed. -/
theorem Ledger.t35Rcv (h : Ledger s) (hI : SlotInv s) (hok : InTime s .t35)
    (hr : s.slave.modbus.rcvState = .rxRcv)
    (ht : t = { s with
      slave := expired (xMBPortEventPost s.slave.modbus .evFrameReceived) s.slave
      hist := .completed s.frame :: s.hist }) : Ledger t := by
  obtain ⟨hq, hx, -, -⟩ := hok hr
  have hpost : s.pc ≠ .post := fun hpc => hI.post hpc hr
  have hs : Idle s := ⟨fun hw => hw.2.1 hr, not_pending hq hpost (hI.ne_got hq _) hx⟩
  have hp' : ¬ ExecutePending t := by
    rw [ht]
    rintro (⟨-, he⟩ | hpc | hpc | hpc)
    · cases he
    · exact hpost hpc
    · exact hI.ne_got hq _ hpc
    · exact hx hpc
  have hf : t.frame = s.frame := by simp [ht, Sys.frame, EModbus.ucRTUBuf]
  have ha : t.slave.modbus.ucMBAddress = s.slave.modbus.ucMBAddress := by rw [ht]; rfl
  by_cases hfor : ForUs s.slave.modbus.ucMBAddress s.frame
  · have hw' : Waiting t := by
      refine ⟨Or.inl ?_, ?_, by rwa [hf, ha]⟩
      · rw [ht]; exact ⟨rfl, rfl⟩
      · rw [ht]
        rintro ⟨⟩
    refine ⟨?_, fun _ => ?_, fun h' => absurd h' hp'⟩
    · rw [inFlight_waiting hw', hf, ha, ht]
      simp [accepted, dispatched, hfor, h.balance, hs.inFlight]
    · rw [ha, ht]
      simp [pollsSince, hfor]
  · refine h.idle ?_ ?_ hs ⟨fun hw' => hfor ?_, hp'⟩
    · rw [ha, ht]
      simp [accepted, hfor]
    · rw [ht]
      rfl
    · rw [← hf, ← ha]
      exact hw'.2.2

/-- A frame is found to be for the slave. -/
theorem Ledger.receiveAccept (h : Ledger s) (hI : SlotInv s) {v : PollVars} {st : Store}
    (hpc : s.pc = .switch .evFrameReceived) (hr : s.slave.modbus.rcvState ≠ .rxRcv)
    (hfor : ForUs s.slave.modbus.ucMBAddress s.frame)
    (ht : t = { s with slave.store := st, vars := v, pc := .post, hist := .validated s.frame :: s.hist }) :
    Ledger t := by
  have hw : Waiting s := ⟨Or.inr hpc, hr, hfor⟩
  have hq := hI.empty hpc hfor
  have hw' : ¬ Waiting t := not_waiting (by rw [ht]; exact hq) (by simp [ht])
  have hx' : ExecutePending t := Or.inr (Or.inl (by rw [ht]))
  refine ⟨?_, fun h' => absurd h' hw', fun _ => ?_⟩
  · rw [inFlight_pending hw' hx', ht]
    exact h.balance.trans (by rw [inFlight_waiting hw]; rfl)
  · have hle := h.waiting hw
    rw [hpc] at hle
    rw [ht]
    exact hle

/-- A handler is called. -/
theorem Ledger.execute (h : Ledger s) (hI : SlotInv s) {v : PollVars} {st : Store} {pc : TaskPc}
    {bs : List UCHAR} (hpc : s.pc = .switch .evExecute) (hpc' : pc = .reply ∨ pc = .drain)
    (ht : t = { s with slave.store := st, vars := v, pc := pc, hist := .executed bs :: s.hist }) :
    Ledger t := by
  have hq := hI.free (Or.inl hpc)
  have hw : ¬ Waiting s := not_waiting hq (by simp [hpc])
  have hx : ExecutePending s := Or.inr (Or.inr (Or.inr hpc))
  have ht' : Idle t := by
    have hq' : t.slave.modbus.xEventInQueue = false := by rw [ht]; exact hq
    rcases hpc' with rfl | rfl
    · exact idle_reply (by rw [ht]) hq'
    · exact idle_draining (by rw [ht]; trivial) hq'
  refine ⟨?_, fun h' => absurd h' ht'.1, fun h' => absurd h' ht'.2⟩
  rw [ht'.inFlight, ht]
  exact h.balance.trans (by rw [inFlight_pending hw hx]; rfl)

/-- `eMBPoll` is called with an event in the slot. -/
theorem Ledger.pollEvent (h : Ledger s) (hpc : s.pc = .poll)
    (hq : s.slave.modbus.xEventInQueue = true)
    (ht : t = { s with pc := .got s.slave.modbus.eQueuedEvent, hist := .polled :: s.hist }) :
    Ledger t := by
  have hw : Waiting t ↔ Waiting s := by simp [ht, Waiting, hpc, Sys.frame]
  have hx : ExecutePending t ↔ ExecutePending s := by
    simp [ht, ExecutePending, ExecuteQueued, hpc, hq]
  have hfly : inFlight t = inFlight s := by
    simp only [inFlight, hw, hx]
    rw [ht]
    rfl
  refine ⟨?_, fun h' => ?_, fun h' => ?_⟩
  · rw [hfly, ht]
    exact h.balance
  · have hle := h.waiting (hw.mp h')
    have he : ReceivedQueued s.slave.modbus := by simpa [Waiting, hpc] using (hw.mp h').1
    rw [hpc] at hle
    simpa [ht, pollsSince, polling, he.2] using hle
  · have hle := h.pending (hx.mp h')
    have he : ExecuteQueued s.slave.modbus := by simpa [ExecutePending, hpc] using hx.mp h'
    rw [hpc] at hle
    simpa [ht, pollsSince, polling, he.2] using hle

/-- A reply is sent, or given up. -/
theorem Ledger.reply (h : Ledger s) (hI : SlotInv s) (hpc : s.pc = .reply) (hpc' : t.pc = .drain)
    (hq' : t.slave.modbus.xEventInQueue = s.slave.modbus.xEventInQueue)
    (ha : t.slave.modbus.ucMBAddress = s.slave.modbus.ucMBAddress) (hh : t.hist = s.hist) :
    Ledger t := by
  have hq := hI.free (Or.inr (Or.inr hpc))
  rw [hq] at hq'
  exact h.idle (by rw [ha, hh]) (by rw [hh]) (idle_reply hpc hq)
    (idle_draining (by rw [hpc']; trivial) hq')

/-- A byte that is stored is not stored over a frame that waits, and makes none. -/
theorem not_waiting_fsm {late : Bool} {junk : UCHAR} {n : Nat} {rcvState : MBRcvState} {b : UCHAR}
    (hok : InTime s (.task late junk)) (hpc : s.pc = .fsm n rcvState b)
    (hst : rcvState = .rxIdle ∨ rcvState = .rxRcv) :
    ¬ Waiting s ∧
      ¬ Waiting { s with slave := rxCase rcvState b s.slave, pc := .timer n } := by
  obtain ⟨-, hidle, hrcv⟩ := hok
  rw [hpc] at hidle hrcv
  rw [waiting_iff (by rw [hpc]; trivial)]
  rcases hst with rfl | rfl
  · exact ⟨fun hw => hidle rfl hw.1 hw.2.2, fun hw => hw.2.1 rfl⟩
  · refine ⟨fun hw => hw.2.1 (hrcv rfl), ?_⟩
    by_cases hpos : s.slave.modbus.usRcvBufferPos < 256
    · rw [rxCase, if_pos hpos]
      exact fun hw => hw.2.1 (hrcv rfl)
    · rw [rxCase, if_neg hpos]
      exact not_waiting_full hpos

/-- The case of `xMBRTUReceiveFSM` leaves a frame in flight. -/
theorem Ledger.fsm (h : Ledger s) {late : Bool} {junk : UCHAR} {n : Nat} {rcvState : MBRcvState}
    {b : UCHAR} (hok : InTime s (.task late junk)) (hpc : s.pc = .fsm n rcvState b) :
    Ledger { s with slave := rxCase rcvState b s.slave, pc := .timer n } := by
  have hdr : Draining s.pc := by rw [hpc]; trivial
  have hstore (hst : rcvState = .rxIdle ∨ rcvState = .rxRcv) :
      Ledger { s with slave := rxCase rcvState b s.slave, pc := .timer n } := by
    obtain ⟨hw, hw'⟩ := not_waiting_fsm hok hpc hst
    refine h.congr rfl (by simp) (fun h => absurd h hw) (iff_of_false hw' hw) ?_ ?_ ?_
    · rw [executePending_iff hdr]
      exact (executePending_iff (by trivial)).trans (by simp [ExecuteQueued])
    · rw [polling_draining _ hdr]
      rfl
    · rw [polling_draining _ hdr]
      rfl
  cases rcvState with
  | rxInit => exact h.drain hdr trivial rfl rfl rfl
  | rxError => exact h.drain hdr trivial rfl rfl rfl
  | rxIdle => exact hstore (Or.inl rfl)
  | rxRcv => exact hstore (Or.inr rfl)

theorem Ledger.step (h : Ledger s) (hI : SlotInv s) (hok : InTime s a) (hs : Step s a t) :
    Ledger t := by
  cases hs with
  | rx byte => exact ⟨h.balance, h.waiting, h.pending⟩
  | t35Init h' =>
    obtain ⟨hq, hpc⟩ := hI.init h'
    have hne : ∀ pc, HasEvent pc → s.pc ≠ pc := fun pc he heq => hpc (heq ▸ he)
    have hsw := hne (.switch .evFrameReceived) trivial
    have hx := hne (.switch .evExecute) trivial
    have hpost := hne .post trivial
    refine h.idle rfl rfl ⟨not_waiting hq hsw, not_pending hq hpost (hI.ne_got hq _) hx⟩ ⟨?_, ?_⟩
    · rintro ⟨⟨-, he⟩ | he, -⟩
      · cases he
      · exact hsw he
    · rintro (⟨-, he⟩ | he | he | he)
      · cases he
      · exact hpost he
      · exact hI.ne_got hq _ he
      · exact hx he
  | t35Rcv h' => exact h.t35Rcv hI hok h' rfl
  | t35Error h' =>
    have hw : ¬ Waiting s := not_waiting_full (hI.error h')
    refine h.congr rfl rfl (fun hw' => absurd hw' hw) (iff_of_false ?_ hw) Iff.rfl rfl rfl
    exact not_waiting_full (hI.error h')
  | t35Fault h' => exact ⟨h.balance, h.waiting, h.pending⟩
  | pollNone hpc h' =>
    have hq : s.slave.modbus.xEventInQueue = false := by
      by_contra hq
      exact h' ⟨hI.enabled, by simpa using hq⟩
    exact h.idle rfl rfl (idle_draining (by rw [hpc]; trivial) hq)
      (idle_draining (by trivial) (by exact hq))
  | pollEvent hpc he hq => exact h.pollEvent hpc hq rfl
  | take hpc =>
    obtain ⟨hq, hslot⟩ := hI.got _ hpc
    refine h.congr rfl rfl (fun _ => rfl) ?_ ?_ ?_ ?_
    · simp [Waiting, ReceivedQueued, hpc, hq, hslot, Sys.frame, EModbus.ucRTUBuf]
    · simp [ExecutePending, ExecuteQueued, hpc, hq, hslot]
    all_goals
      rw [hpc]
      rfl
  | receiveFault hpc h' => exact ⟨h.balance, h.waiting, h.pending⟩
  | receiveAccept hpc hpos h' =>
    have hfor := forUs_frame hpos h'
    exact h.receiveAccept hI hpc (fun hr => hok.1 hpc hr hfor) hfor rfl
  | receiveIgnore hpc hpos h' vars =>
    have hx : ¬ ExecuteQueued s.slave.modbus := by
      rintro ⟨hq, he⟩
      cases (hI.received hpc hq).1.symm.trans he
    refine h.idle rfl rfl ⟨fun hw => h' hw.2.2.1, fun hp => hx ?_⟩ ⟨fun hw => h' ?_, fun hp => hx ?_⟩
    · exact hp.queued (by simp [hpc]) (by simp [hpc]) (by simp [hpc])
    · have hw' := hw.2.2.1
      rwa [frame_congr (s := s) (by rfl) (by rfl) (by exact receivedStore_data s.slave)] at hw'
    · exact hp.queued (by simp) (by simp) (by simp)
  | execute hpc store vars pc hpc' =>
    refine h.execute hI hpc ?_ rfl
    rw [hpc']
    split
    · exact Or.inl rfl
    · exact Or.inr rfl
  | ignore hpc h' =>
    refine h.congr rfl rfl (fun _ => rfl) ?_ ?_ ?_ ?_
    · rcases h' with rfl | rfl <;> simp [Waiting, hpc, Sys.frame]
    · rcases h' with rfl | rfl <;> simp [ExecutePending, hpc]
    all_goals rcases h' with rfl | rfl <;> rw [hpc] <;> rfl
  | post hpc =>
    have hq := hI.free (Or.inr (Or.inl hpc))
    refine h.congr rfl rfl (fun _ => rfl) ?_ ?_ ?_ ?_
    · simp [Waiting, ReceivedQueued, hpc, hq]
    · simp [ExecutePending, ExecuteQueued, hpc]
    all_goals
      rw [hpc]
      rfl
  | replySent hpc h' p store vars board hb => exact h.reply hI hpc rfl rfl rfl rfl
  | replyBusy hpc h' store vars => exact h.reply hI hpc rfl rfl rfl rfl
  | drain hpc => exact h.drain (by rw [hpc]; trivial) trivial rfl rfl rfl
  | feedDone hpc => exact h.drain (by rw [hpc]; trivial) trivial rfl rfl rfl
  | feed hpc h' => exact h.drain (by rw [hpc]; trivial) trivial rfl rfl rfl
  | feedFault hpc h' => exact ⟨h.balance, h.waiting, h.pending⟩
  | fsm hpc => exact h.fsm hok hpc
  | timer hpc => exact h.drain (by rw [hpc]; trivial) trivial (by simp) (by simp) rfl

theorem Ledger.reach (h : service.Reach InTime s) : Ledger s := by
  have hboth : SlotInv s ∧ Ledger s := by
    refine Lts.Reach.inv (I := fun s => SlotInv s ∧ Ledger s) h
      (fun _ hi => ⟨.of_init hi, .of_init hi⟩) fun _ _ _ hI hok hn => ?_
    have hs := (Step.of_next hn).2
    exact ⟨hI.1.step hok hs, hI.2.step hI.1 hok hs⟩
  exact hboth.2

/-- Three polls after the last frame for the slave was completed, none is in flight. -/
theorem Ledger.served (h : Ledger s)
    (hp : 3 ≤ pollsSince s.slave.modbus.ucMBAddress s.hist) : inFlight s = [] := by
  refine Idle.inFlight ⟨fun hw => ?_, fun hx => ?_⟩
  · have h₁ := h.waiting hw
    have h₂ := polling_le .evFrameReceived s.pc
    omega
  · have h₁ := h.pending hx
    have h₂ := polling_le .evExecute s.pc
    omega

end

/-- In every run in which frames do not come faster than they are served, every event that
was posted is in the slot or was taken, in order, and every frame completed for the slave is
dispatched once, in order, within three polls. -/
theorem events_kept (s : Sys) (hr : service.Reach InTime s) :
    s.slave.modbus.posted = queued s.slave.modbus ++ s.slave.modbus.got ∧
      ∃ pending, accepted s.slave.modbus.ucMBAddress s.hist = pending ++ dispatched s.hist ∧
        pending.length ≤ 1 ∧
        (3 ≤ pollsSince s.slave.modbus.ucMBAddress s.hist → pending = []) :=
  have h := Ledger.reach hr
  ⟨(SlotInv.reach hr).posted, inFlight s, h.balance, length_inFlight s, h.served⟩

/-- The request for holding register 0. -/
theorem events_kept_request :
    [MBEventType.evExecute, .evFrameReceived, .evReady] =
        [] ++ [MBEventType.evExecute, .evFrameReceived, .evReady] ∧
      ∃ pending, accepted 1 (.executed [0x03, 0x00, 0x00, 0x00, 0x01] :: requestHist) =
          pending ++ dispatched (.executed [0x03, 0x00, 0x00, 0x00, 0x01] :: requestHist) ∧
        pending.length ≤ 1 ∧
        (3 ≤ pollsSince 1 (.executed [0x03, 0x00, 0x00, 0x00, 0x01] :: requestHist) →
          pending = []) := by
  have hr := Lts.Run.of_decide service InTime start requestServed
    (by decide +kernel)
  have h := events_kept _ ⟨_, _, start_init, hr⟩
  have ha : (service.exec (fun s a => decide (InTime s a)) start
      requestServed).1.slave.modbus.ucMBAddress = 1 := by decide +kernel
  have hh : (service.exec (fun s a => decide (InTime s a)) start requestServed).1.hist =
      .executed [0x03, 0x00, 0x00, 0x00, 0x01] :: requestHist := by decide +kernel
  have hp : (service.exec (fun s a => decide (InTime s a)) start
      requestServed).1.slave.modbus.posted = [.evExecute, .evFrameReceived, .evReady] := by
    decide +kernel
  have hg : (service.exec (fun s a => decide (InTime s a)) start
      requestServed).1.slave.modbus.got = [.evExecute, .evFrameReceived, .evReady] := by
    decide +kernel
  have hq : queued (service.exec (fun s a => decide (InTime s a)) start
      requestServed).1.slave.modbus = [] := by decide +kernel
  rwa [ha, hh, hp, hg, hq] at h

/-- The request is received once more while the task drains the queue after it validated the
first: its T3.5 overwrites `EV_EXECUTE`, and one of the two is never dispatched. -/
theorem not_events_kept :
    (¬ ∀ s : Sys, service.Reach Lts.any s →
      s.slave.modbus.posted = queued s.slave.modbus ++ s.slave.modbus.got) ∧
    ¬ ∀ s : Sys, service.Reach Lts.any s →
      ∃ pending, accepted s.slave.modbus.ucMBAddress s.hist = pending ++ dispatched s.hist ∧
        pending.length ≤ 1 ∧
        (3 ≤ pollsSince s.slave.modbus.ucMBAddress s.hist → pending = []) := by
  have hr := Lts.Run.any_of_exec service start
    (requestReceived ++ tasks 4 ++ receive request ++ tasks 26 ++ [.t35] ++ tasks 20)
    (by decide +kernel)
  refine ⟨fun h => ?_, fun h => ?_⟩
  · exact absurd (h _ ⟨_, _, start_init, hr⟩) (by decide +kernel)
  · obtain ⟨pending, hbal, -, hdone⟩ := h _ ⟨_, _, start_init, hr⟩
    rw [hdone (by decide +kernel)] at hbal
    exact absurd hbal (by decide +kernel)

end Rs485.Modbus
