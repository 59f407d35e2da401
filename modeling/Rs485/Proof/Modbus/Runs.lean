import Rs485.Proof.Modbus.Steps

/-!
# The functions as runs of the task

The service steps through `eMBPoll` and `xMBRTUReceiveFSM` in the parts that an
interrupt can come between. Where none comes, the parts make up the functions
as they stand in the source (`poll_run`, `receiveFSM_run`).
-/

namespace Rs485.Modbus

open Rs485.Framework

/-- Without an interrupt the task gets from `s` to `u`. -/
def Undisturbed (s u : Sys) : Prop := ∃ n, service.Run Lts.any s (tasks n) u

section

variable {s t u : Sys} {slave : Slave}

theorem Undisturbed.refl (s : Sys) : Undisturbed s s := ⟨0, .nil⟩

theorem Undisturbed.step (hf : s.fault = none) (ht : s.task false 0 = t) (h : Undisturbed t u) :
    Undisturbed s u := by
  obtain ⟨n, hr⟩ := h
  have hn : service.next s (.task false 0) = some t := by
    rw [← ht]
    exact if_pos hf
  exact ⟨n + 1, hr.cons trivial hn⟩

/-- The parts of `xMBRTUReceiveFSM` make up the whole. -/
theorem receiveFSM_run {n : Nat} (hf : s.fault = none) (hpc : s.pc = .feed (n + 1))
    (h : xMBRTUReceiveFSM false 0 s.slave = .ok slave) :
    Undisturbed s { s with slave := slave, pc := .feed n } := by
  obtain ⟨⟨b, slave'⟩, hb, h⟩ := bind_ok h
  cases h
  have hread : s.task false 0 = { s with slave := slave', pc := .fsm n slave'.modbus.rcvState b } := by
    simp only [Sys.task, hpc, hb]
  exact .step hf hread (.step hf rfl (.step hf rfl (.refl _)))

/-- Without an interrupt the task gets through `eMBPoll` with `slave` and `v`. -/
def PollsTo (s : Sys) (slave : Slave) (v : PollVars) : Prop :=
  ∃ u, Undisturbed s u ∧ u.pc = .drain ∧ u.slave = slave ∧ u.vars = v

variable {v : PollVars}

theorem PollsTo.done (hpc : s.pc = .drain) : PollsTo s s.slave s.vars :=
  ⟨s, .refl s, hpc, rfl, rfl⟩

theorem PollsTo.step (hf : s.fault = none) (ht : s.task false 0 = t) (h : PollsTo t slave v) :
    PollsTo s slave v := by
  obtain ⟨u, hu, hres⟩ := h
  exact ⟨u, .step hf ht hu, hres⟩

theorem receive_run {accepted : Bool} (hf : s.fault = none)
    (hpc : s.pc = .switch .evFrameReceived)
    (h : pollReceive s.vars s.slave = .ok (accepted, v, slave)) :
    PollsTo s
      (if accepted then { slave with modbus := xMBPortEventPost slave.modbus .evExecute }
      else slave) v := by
  cases accepted with
  | true =>
    have hnext : s.task false 0 =
        { s with slave := slave, vars := v, pc := .post, hist := .validated s.frame :: s.hist } := by
      simp only [Sys.task, hpc, h]
    exact .step hf hnext (.step hf rfl (.done rfl))
  | false =>
    have hnext : s.task false 0 = { s with slave := slave, vars := v, pc := .drain } := by
      simp only [Sys.task, hpc, h]
    exact .step hf hnext (.done rfl)

theorem execute_run (hf : s.fault = none) (hpc : s.pc = .switch .evExecute)
    (h : pollExecuteReply s.vars s.slave = .ok (v, slave)) : PollsTo s slave v := by
  rw [pollExecuteReply] at h
  split at h
  · rename_i hne
    have hnext : s.task false 0 =
        { s with
          slave.store := (call (pollExecute s.vars) s.slave.store).2
          vars := (call (pollExecute s.vars) s.slave.store).1
          pc := .reply
          hist := .executed s.pdu :: s.hist } := by
      simp only [Sys.task, hpc, if_pos hne]
    refine .step hf hnext (.step (t := { s with
      slave := slave, vars := v, pc := .drain, hist := .executed s.pdu :: s.hist }) hf ?_ (.done rfl))
    simp only [Sys.task, h]
  · rename_i heq
    cases h
    have hnext : s.task false 0 =
        { s with
          slave.store := (call (pollExecute s.vars) s.slave.store).2
          vars := (call (pollExecute s.vars) s.slave.store).1
          pc := .drain
          hist := .executed s.pdu :: s.hist } := by
      simp only [Sys.task, hpc, if_neg heq]
    exact .step hf hnext (.done rfl)

theorem ignore_run {e : MBEventType} (hf : s.fault = none) (hpc : s.pc = .switch e)
    (he : e = .evReady ∨ e = .evFrameSent) : PollsTo s s.slave s.vars := by
  have hnext : s.task false 0 = { s with pc := .drain } := by
    rcases he with rfl | rfl <;> simp only [Sys.task, hpc]
  exact .step hf hnext (.done rfl)

/-- The parts of `eMBPoll` make up the whole. -/
theorem poll_run {r : MBErrorCode} (hf : s.fault = none) (hpc : s.pc = .poll)
    (h : eMBPoll s.vars s.slave = .ok (r, v, slave)) : PollsTo s slave v := by
  by_cases he : s.slave.modbus.eMBState = .enabled ∧ s.slave.modbus.xEventInQueue = true
  · obtain ⟨hen, hq⟩ := he
    rw [eMBPoll, if_neg (not_not.mpr hen), xMBPortEventGet, if_pos hq] at h
    have hread : s.task false 0 =
        { s with pc := .got s.slave.modbus.eQueuedEvent, hist := .polled :: s.hist } := by
      simp only [Sys.task, hpc, hen, hq, and_self, if_true]
    refine .step hf hread (.step hf rfl ?_)
    cases hev : s.slave.modbus.eQueuedEvent with
    | evReady =>
      rw [hev] at h
      cases h
      exact ignore_run hf rfl (Or.inl rfl)
    | evFrameSent =>
      rw [hev] at h
      cases h
      exact ignore_run hf rfl (Or.inr rfl)
    | evFrameReceived =>
      rw [hev] at h
      obtain ⟨⟨accepted, v', slave'⟩, hrec, h⟩ := bind_ok h
      have hrun := receive_run
        (s := { s with slave.modbus := xMBPortEventTake s.slave.modbus .evFrameReceived
                       pc := .switch .evFrameReceived, hist := .polled :: s.hist }) hf rfl hrec
      cases accepted with
      | true =>
        cases h
        exact hrun
      | false =>
        cases h
        exact hrun
    | evExecute =>
      rw [hev] at h
      obtain ⟨⟨v', slave'⟩, hex, h⟩ := bind_ok h
      cases h
      exact execute_run hf rfl hex
  · have hread : s.task false 0 = { s with pc := .drain, hist := .polled :: s.hist } := by
      simp only [Sys.task, hpc, if_neg he]
    refine .step hf hread ?_
    by_cases hen : s.slave.modbus.eMBState = .enabled
    · have hq : ¬ s.slave.modbus.xEventInQueue = true := fun hq => he ⟨hen, hq⟩
      rw [eMBPoll, if_neg (not_not.mpr hen), xMBPortEventGet, if_neg hq] at h
      cases h
      exact .done rfl
    · rw [eMBPoll, if_pos hen] at h
      cases h
      exact .done rfl

end

end Rs485.Modbus
