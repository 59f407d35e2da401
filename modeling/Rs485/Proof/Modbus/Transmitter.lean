import Rs485.Proof.Modbus.Steps

/-!
# The transmitter after a reply

Nothing calls `xMBRTUTransmitFSM` a second time, so that the first reply leaves
the transmitter in `STATE_TX_XMIT` and the driver enabled for good: the line is
free exactly in the runs in which no reply was sent (`line_free_iff`), and the
next byte fails the assertion of `xMBRTUReceiveFSM`.
-/

namespace Rs485.Modbus

open Rs485.Framework

/-- The transmitter is idle, the driver is off, and no byte met a busy transmitter. -/
structure LineFree (s : Sys) : Prop where
  sndState : s.slave.modbus.sndState = .txIdle
  rs485De : s.slave.board.rs485De = false
  fault : s.fault ≠ some .receiveSndIdle

/-- The transmitter is busy and the driver on. -/
structure LineTaken (s : Sys) : Prop where
  sndState : s.slave.modbus.sndState = .txXmit
  rs485De : s.slave.board.rs485De = true

/-- The step does not send a reply. -/
def NoReply (s : Sys) : Act → Prop
  | .task _ _ => s.pc = .reply → s.slave.modbus.rcvState ≠ .rxIdle
  | _ => True

instance (s : Sys) (a : Act) : Decidable (NoReply s a) :=
  match a with
  | .task _ _ => inferInstanceAs (Decidable (_ → _))
  | .rx _ => inferInstanceAs (Decidable True)
  | .t35 => inferInstanceAs (Decidable True)

section

variable {s t : Sys} {a : Act}

@[simp] theorem getByte_rs485De (late : Bool) (b : Board) :
    (xMBPortSerialGetByte late b).2.rs485De = b.rs485De := by
  cases late <;> cases h : b.rxQueue <;> simp [xMBPortSerialGetByte, h]

theorem LineFree.step (h : LineFree s) (hok : NoReply s a)
    (hs : Step s a t) : LineFree t := by
  obtain ⟨hsnd, hde, hfault⟩ := h
  cases hs with
  | feedFault hpc hne => exact absurd hsnd hne
  | replySent hpc hr p store vars board hb => exact absurd hr (hok hpc)
  | t35Fault h => exact ⟨hsnd, hde, nofun⟩
  | receiveFault hpc h => exact ⟨hsnd, hde, nofun⟩
  | _ => exact ⟨by simpa using hsnd, by simpa using hde, hfault⟩

theorem LineTaken.step (h : LineTaken s) (hs : Step s a t) : LineTaken t := by
  obtain ⟨hsnd, hde⟩ := h
  cases hs with
  | replySent hpc hr p store vars board hb => exact ⟨rfl, hb⟩
  | _ => exact ⟨by simpa using hsnd, by simpa using hde⟩

/-- The one step that the guard excludes takes the line. -/
theorem lineTaken_of_reply (hs : Step s a t) (hbad : ¬ NoReply s a) : LineTaken t := by
  cases a with
  | rx byte => exact absurd trivial hbad
  | t35 => exact absurd trivial hbad
  | task late junk =>
    obtain ⟨hpc, hr⟩ : s.pc = .reply ∧ s.slave.modbus.rcvState = .rxIdle := by
      simpa [NoReply] using hbad
    cases hs with
    | replySent hpc hr p store vars board hb => exact ⟨rfl, hb⟩
    | replyBusy hpc h => exact absurd hr h
    | _ => simp_all

end

theorem LineFree.of_init {s : Sys} (h : service.init s) : LineFree s :=
  have hb := Booted.of_init h
  ⟨hb.sndState, hb.rs485De, by rw [hb.fault]; exact nofun⟩

/-- A run without replies leaves the line free, any other run does not. -/
theorem line_cases {s t : Sys} {as : List Act} (hi : service.init s)
    (hr : service.Run Lts.any s as t) :
    (service.Run NoReply s as t ∧ LineFree t) ∨ (¬ service.Run NoReply s as t ∧ LineTaken t) := by
  refine hr.keeps_or_breaks (J := fun _ => True) trivial (LineFree.of_init hi)
    (fun _ _ _ _ _ _ => trivial) (fun _ _ _ _ hfree _ hok hn => ?_)
    (fun _ _ _ _ _ _ hbad hn => ?_) fun _ _ _ _ htaken _ hn => ?_
  · exact hfree.step hok (Step.of_next hn).2
  · exact lineTaken_of_reply (Step.of_next hn).2 hbad
  · exact htaken.step (Step.of_next hn).2

/-- A reply takes the line for good: after a run the transmitter is idle, the driver is off
and no byte has met a busy transmitter if and only if no step of the run sent a reply. -/
theorem line_free_iff (s t : Sys) (as : List Act) (hi : service.init s)
    (hr : service.Run Lts.any s as t) :
    (t.slave.modbus.sndState = .txIdle ∧ t.slave.board.rs485De = false ∧
      t.fault ≠ some .receiveSndIdle) ↔ service.Run NoReply s as t := by
  rcases line_cases hi hr with ⟨hno, hfree⟩ | ⟨hno, htaken⟩
  · exact iff_of_true ⟨hfree.sndState, hfree.rs485De, hfree.fault⟩ hno
  · refine iff_of_false (fun h => ?_) hno
    have hsnd := h.1.symm.trans htaken.sndState
    cases hsnd

/-- A broadcast is executed, and gets no reply. -/
theorem line_free_iff_broadcast :
    let t := (service.exec (fun s a => decide (NoReply s a)) start broadcastServed).1
    t.slave.store.maps.holding 2 = 0x1234 ∧ t.slave.modbus.sndState = .txIdle ∧
      t.slave.board.rs485De = false ∧ t.fault ≠ some .receiveSndIdle := by
  have hr := Lts.Run.of_decide service NoReply start broadcastServed (by decide +kernel)
  have hfree := (line_free_iff start _ broadcastServed start_init (hr.mono fun _ _ _ => trivial)).mpr hr
  exact ⟨by decide +kernel, hfree⟩

/-- The reply to a request for holding register 0: the task is through with its
iteration, the transmitter is not. -/
theorem not_line_free : ¬ ∀ s : Sys, service.Reach Lts.any s → s.pc = .poll →
    s.slave.modbus.sndState = .txIdle ∧ s.slave.board.rs485De = false := by
  intro h
  have hr := Lts.Run.any_of_exec service start requestServed (by decide +kernel)
  have hbad := h _ ⟨_, _, start_init, hr⟩ (by decide +kernel)
  exact absurd hbad.1 (by decide +kernel)

end Rs485.Modbus
