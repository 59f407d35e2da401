import Rs485.Proof.Modbus.Steps

/-!
# What a handler is called with

Between the poll that validates a frame and the poll that executes it the task
drains the receive queue into the same buffer. The PDU that a handler gets is
that of the validated frame in every run in which no byte is stored over it
meanwhile with another value (`dispatch_intact`).
-/

namespace Rs485.Modbus

open Rs485.Framework

/-- The frame that was validated last. -/
def lastValidated : List Obs → Option (List UCHAR)
  | [] => none
  | .validated f :: _ => some f
  | _ :: h => lastValidated h

/-- Every PDU executed is that of the frame validated last before, which was for the slave
with the address `a`. -/
def Intact (a : UCHAR) : List Obs → Prop
  | [] => True
  | .executed pdu :: h =>
    (∃ f, lastValidated h = some f ∧ ForSlave a f ∧ pdu = pduOf f) ∧ Intact a h
  | _ :: h => Intact a h

/-- `EV_EXECUTE` waits in the slot. -/
def ExecuteQueued (m : EModbus) : Prop := m.xEventInQueue = true ∧ m.eQueuedEvent = .evExecute

instance (m : EModbus) : Decidable (ExecuteQueued m) := inferInstanceAs (Decidable (_ ∧ _))

/-- The byte that the step adds to the frame in the buffer. -/
def added : Act → TaskPc → Option UCHAR
  | .task _ _, .fsm _ .rxRcv ucByte => some ucByte
  | _, _ => none

/-- The step stores a byte of a frame, while `EV_EXECUTE` waits, over another value in the
PDU that is to be executed. -/
def Clobbers (s : Sys) (a : Act) : Prop :=
  ∃ b ∈ added a s.pc, ExecuteQueued s.slave.modbus ∧
    1 ≤ s.slave.modbus.usRcvBufferPos ∧ s.slave.modbus.usRcvBufferPos ≤ s.vars.usLength ∧
    s.slave.modbus.usRcvBufferPos < 256 ∧
    s.slave.store.byte s.slave.modbus.ucRTUBuf s.slave.modbus.usRcvBufferPos ≠ b

instance (s : Sys) (a : Act) : Decidable (Clobbers s a) :=
  inferInstanceAs (Decidable (∃ b ∈ added a s.pc, _))

/-- The step does not clobber a request. -/
def Spares (s : Sys) (a : Act) : Prop := ¬ Clobbers s a

instance (s : Sys) (a : Act) : Decidable (Spares s a) := inferInstanceAs (Decidable (¬ _))

/-- An `EV_EXECUTE` is on its way to the handler. -/
def ExecutePending (s : Sys) : Prop :=
  ExecuteQueued s.slave.modbus ∨ s.pc = .post ∨ s.pc = .got .evExecute ∨ s.pc = .switch .evExecute

/-- `eMBPoll` has taken an event, and has not come to its end. -/
def HasEvent : TaskPc → Prop
  | .got e => e ≠ .evExecute
  | .switch _ | .post | .reply => True
  | _ => False

/-- The task is in `vMBPortSerialPoll`, or about to call `eMBPoll`. -/
def Draining : TaskPc → Prop
  | .got _ | .switch _ | .post | .reply => False
  | _ => True

/-- What `eMBPoll` would execute now is the PDU of the frame validated last. -/
def Ready (s : Sys) : Prop :=
  s.vars.ucMBFrame = s.slave.modbus.ucRTUBuf.add 1 ∧
    ∃ f, lastValidated s.hist = some f ∧ ForSlave s.slave.modbus.ucMBAddress f ∧ s.pdu = pduOf f

/-- While `EV_EXECUTE` is on its way the PDU in the buffer is the one validated; and it is
not in the slot while `eMBPoll` works on another event. -/
structure DispatchInv (s : Sys) : Prop where
  intact : Intact s.slave.modbus.ucMBAddress s.hist
  ready : ExecutePending s → Ready s
  slot : HasEvent s.pc → ¬ ExecuteQueued s.slave.modbus

section

variable {s t : Sys} {a : Act}

theorem DispatchInv.of_init (h : service.init s) : DispatchInv s := by
  have hb := Booted.of_init h
  refine ⟨by rw [hb.hist]; trivial, fun hp => ?_, fun hp => ?_⟩
  · rcases hp with hq | hp | hp | hp
    · rw [ExecuteQueued, hb.xEventInQueue] at hq
      cases hq.1
    all_goals
      rw [hb.pc] at hp
      cases hp
  · rw [hb.pc] at hp
    cases hp

/-- The case of `xMBRTUReceiveFSM` spares the PDU. -/
theorem pdu_rxCase {n : Nat} {rcvState : MBRcvState} {b : UCHAR} {late : Bool} {junk : UCHAR}
    (hpc : s.pc = .fsm n rcvState b) (hq : ExecuteQueued s.slave.modbus)
    (hf : s.vars.ucMBFrame = s.slave.modbus.ucRTUBuf.add 1) (hok : Spares s (.task late junk)) :
    (rxCase rcvState b s.slave).store.mem.slice s.vars.ucMBFrame s.vars.usLength = s.pdu := by
  rw [Sys.pdu, hf]
  cases rcvState with
  | rxInit => rfl
  | rxError => rfl
  | rxIdle =>
    rw [rxCase]
    exact Mem.slice_store fun _ => Or.inl (by simp [EModbus.ucRTUBuf])
  | rxRcv =>
    rw [rxCase]
    split
    · rename_i hpos
      by_cases hin : 1 ≤ s.slave.modbus.usRcvBufferPos ∧ s.slave.modbus.usRcvBufferPos ≤ s.vars.usLength
      · have hb : s.slave.store.byte s.slave.modbus.ucRTUBuf s.slave.modbus.usRcvBufferPos = b := by
          by_contra hne
          exact hok ⟨b, by rw [hpc]; rfl, hq, hin.1, hin.2, hpos, hne⟩
        apply Mem.slice_congr
        intro i _
        rw [Mem.store_data]
        split
        · rename_i hoff
          rw [hoff.2, ← hb]
          rfl
        · rfl
      · apply Mem.slice_store
        intro _
        simp only [Ptr.add_off, EModbus.ucRTUBuf]
        omega
    · rfl

/-- What does not touch the PDU or what was validated keeps it ready. -/
theorem Ready.congr (h : Ready s) (hv : t.vars = s.vars) (hid : t.slave.modbus.id = s.slave.modbus.id)
    (ha : t.slave.modbus.ucMBAddress = s.slave.modbus.ucMBAddress)
    (hl : lastValidated t.hist = lastValidated s.hist) (hp : t.pdu = s.pdu) : Ready t := by
  obtain ⟨hf, f, hlast, hfor, hpdu⟩ := h
  refine ⟨?_, f, hl.trans hlast, by rwa [ha], hp.trans hpdu⟩
  rw [hv, hf, EModbus.ucRTUBuf, EModbus.ucRTUBuf, hid]

/-- Where the task is not between two events, `EV_EXECUTE` is on its way in the slot. -/
theorem ExecutePending.queued (h : ExecutePending t) (h₁ : t.pc ≠ .post) (h₂ : t.pc ≠ .got .evExecute)
    (h₃ : t.pc ≠ .switch .evExecute) : ExecuteQueued t.slave.modbus := by
  rcases h with hq | hp | hp | hp
  · exact hq
  · exact absurd hp h₁
  · exact absurd hp h₂
  · exact absurd hp h₃

theorem Draining.not_hasEvent {pc : TaskPc} (h : Draining pc) : ¬ HasEvent pc := by
  cases pc with
  | got | switch | post | reply => exact h.elim
  | _ => exact id

theorem executePending_iff (h : Draining s.pc) :
    ExecutePending s ↔ ExecuteQueued s.slave.modbus := by
  refine ⟨fun hx => hx.queued ?_ ?_ ?_, Or.inl⟩
  all_goals
    intro hpc
    rw [hpc] at h
    exact h

/-- Where the task is draining, only the slot counts. -/
theorem DispatchInv.draining (hpc : Draining s.pc) (hint : Intact s.slave.modbus.ucMBAddress s.hist)
    (hready : ExecuteQueued s.slave.modbus → Ready s) : DispatchInv s :=
  ⟨hint, fun hp => hready ((executePending_iff hpc).mp hp), fun he => absurd he hpc.not_hasEvent⟩

theorem DispatchInv.step (h : DispatchInv s) (hok : Spares s a) (hs : Step s a t) :
    DispatchInv t := by
  obtain ⟨hint, hready, hslot⟩ := h
  have hnot {pc : TaskPc} (hpc : s.pc = pc) (he : HasEvent pc) : ¬ ExecuteQueued s.slave.modbus :=
    hslot (hpc ▸ he)
  cases hs with
  | rx byte => exact ⟨hint, hready, hslot⟩
  | t35Init h =>
    refine ⟨hint, fun hp => ?_, fun _ hq => by cases hq.2⟩
    rcases hp with hq | hp
    · cases hq.2
    · exact (hready (Or.inr hp)).congr rfl rfl rfl rfl (by simp [Sys.pdu])
  | t35Rcv h =>
    refine ⟨hint, fun hp => ?_, fun _ hq => by cases hq.2⟩
    rcases hp with hq | hp
    · cases hq.2
    · exact (hready (Or.inr hp)).congr rfl rfl rfl rfl (by simp [Sys.pdu])
  | t35Error h =>
    exact ⟨hint, fun hp => (hready hp).congr rfl rfl rfl rfl (by simp [Sys.pdu]), hslot⟩
  | t35Fault h => exact ⟨hint, hready, hslot⟩
  | pollNone hpc h => exact .draining trivial hint fun hq => hready (Or.inl hq)
  | pollEvent hpc he hq =>
    refine ⟨hint, fun hp => ?_, fun hne hq' => hne hq'.2⟩
    rcases hp with hq' | hp | hp | hp
    · exact hready (Or.inl hq')
    · cases hp
    · exact hready (Or.inl ⟨hq, by simpa using hp⟩)
    · cases hp
  | take hpc =>
    refine ⟨hint, fun hp => ?_, fun _ hq => by cases hq.1⟩
    rcases hp with hq | hp | hp | hp
    · cases hq.1
    · cases hp
    · cases hp
    · cases hp
      exact hready (Or.inr (Or.inr (Or.inl hpc)))
  | receiveFault hpc h => exact ⟨hint, hready, hslot⟩
  | receiveAccept hpc hpos h =>
    refine ⟨hint, fun _ => ⟨rfl, s.frame, rfl, h, ?_⟩, fun _ => hnot hpc trivial⟩
    have hlen := h.1.1
    rw [Sys.frame, Mem.length_slice] at hlen
    rw [pduOf_frame hlen]
    exact Mem.slice_congr fun i _ => by rw [receivedStore_data]
  | receiveIgnore hpc hpos h vars => exact .draining trivial hint fun hq => absurd hq (hnot hpc trivial)
  | execute hpc store vars pc hpc' =>
    obtain ⟨hf, hrest⟩ := hready (Or.inr (Or.inr (Or.inr hpc)))
    refine ⟨⟨hrest, hint⟩, fun hp => ?_, fun _ => hnot hpc trivial⟩
    refine absurd (hp.queued ?_ ?_ ?_) (hnot hpc trivial)
    all_goals
      rw [hpc']
      split <;> simp
  | ignore hpc h => exact .draining trivial hint fun hq => absurd hq (hnot hpc trivial)
  | post hpc => exact .draining trivial hint fun _ => hready (Or.inr (Or.inl hpc))
  | replySent hpc h p store vars board hb => exact .draining trivial hint fun hq => absurd hq (hnot hpc trivial)
  | replyBusy hpc h store vars => exact .draining trivial hint fun hq => absurd hq (hnot hpc trivial)
  | drain hpc => exact .draining trivial hint fun hq => hready (Or.inl hq)
  | feedDone hpc => exact .draining trivial hint fun hq => hready (Or.inl hq)
  | feed hpc h => exact .draining trivial hint fun hq => hready (Or.inl hq)
  | feedFault hpc h => exact ⟨hint, hready, hslot⟩
  | fsm hpc =>
    refine .draining trivial (by simpa using hint) fun hq => ?_
    have hq' : ExecuteQueued s.slave.modbus := by simpa [ExecuteQueued] using hq
    have hr := hready (Or.inl hq')
    exact hr.congr rfl (by simp) (by simp) rfl (pdu_rxCase hpc hq' hr.1 hok)
  | timer hpc =>
    refine .draining trivial (by simpa using hint) fun hq => ?_
    have hq' : ExecuteQueued s.slave.modbus := by simpa [ExecuteQueued] using hq
    exact (hready (Or.inl hq')).congr rfl (by simp) (by simp) rfl (by simp [Sys.pdu])

theorem DispatchInv.reach (h : service.Reach Spares s) : DispatchInv s :=
  h.inv (fun _ hi => .of_init hi) fun _ _ _ hI hok hn => hI.step hok (Step.of_next hn).2

theorem Intact.append {c : UCHAR} {newer older : List Obs} (h : Intact c (newer ++ older)) :
    Intact c older := by
  induction newer with
  | nil => exact h
  | cons o newer ih =>
    cases o with
    | executed pdu => exact ih h.2
    | _ => exact ih h

end

/-- In every run in which no step clobbers a request, what `eMBPoll` executes is the PDU of
the frame that it validated last before, whose CRC and address were right. -/
theorem dispatch_intact (s : Sys) (newer older : List Obs) (pdu : List UCHAR)
    (hr : service.Reach Spares s) (hh : s.hist = newer ++ .executed pdu :: older) :
    ∃ f, lastValidated older = some f ∧ 4 ≤ f.length ∧ crc16 f = 0 ∧
      (f.headD 0 = s.slave.modbus.ucMBAddress ∨ f.headD 0 = mbAddressBroadcast) ∧
      pdu = pduOf f := by
  have hint := (DispatchInv.reach hr).intact
  rw [hh] at hint
  obtain ⟨⟨f, hlast, hfor, hpdu⟩, -⟩ := hint.append
  exact ⟨f, hlast, hfor.1.1, hfor.1.2, hfor.2, hpdu⟩

/-- The request for holding register 0. -/
theorem dispatch_intact_request :
    ∃ f, lastValidated requestHist = some f ∧ 4 ≤ f.length ∧ crc16 f = 0 ∧
      (f.headD 0 = 1 ∨ f.headD 0 = mbAddressBroadcast) ∧
      [0x03, 0x00, 0x00, 0x00, 0x01] = pduOf f := by
  have hexec : let r := service.exec (fun s a => decide (Spares s a)) start requestServed
      r.2 = true ∧ r.1.slave.modbus.ucMBAddress = 1 ∧
        r.1.hist = [] ++ .executed [0x03, 0x00, 0x00, 0x00, 0x01] :: requestHist := by decide +kernel
  obtain ⟨hrun, ha, hh⟩ := hexec
  have h := dispatch_intact _ [] requestHist [0x03, 0x00, 0x00, 0x00, 0x01]
    ⟨_, _, start_init, Lts.Run.of_decide service Spares start requestServed hrun⟩ hh
  rw [ha] at h
  exact h

/-- Two bytes of other traffic, drained after the request was validated, turn its function
code 3 into a 6 before it is executed. -/
theorem not_dispatch_intact : ¬ ∀ (s : Sys) (newer older : List Obs) (pdu : List UCHAR),
    service.Reach Lts.any s → s.hist = newer ++ .executed pdu :: older →
      ∃ f, lastValidated older = some f ∧ pdu = pduOf f := by
  intro h
  have hr := Lts.Run.any_of_exec service start
    (requestReceived ++ tasks 4 ++ receive [0x02, 0x06] ++ tasks 11) (by decide +kernel)
  obtain ⟨f, hlast, hpdu⟩ := h _ [] requestHist [0x06, 0x00, 0x00, 0x00, 0x01]
    ⟨_, _, start_init, hr⟩ (by decide +kernel)
  cases hlast
  cases hpdu

end Rs485.Modbus
