import Mathlib.Logic.Function.Iterate
import Rs485.Impl.UsbRs485

/-!
# The two triggers of the bridge

`usb_rs485_enable` sets the flag after it suspended the Modbus task, and
`usb_rs485_disable` resumes the task after it cleared the flag. A call of the
shell task between the two statements leaves flag and task apart if it
disables the bridge in the first gap, or enables it in the second; these are the
only calls that do (`toggle_agree`, `shell_call_parts`).
-/

namespace Rs485.UsbRs485

open Rs485.Framework

/-- A call that nothing interrupts is the function. -/
theorem statement_enable (u : Usb) :
    Toggle.statement^[4] ⟨u, .enableTest⟩ = ⟨usbRs485Enable u, .idle⟩ := by
  by_cases h : u.enabled <;> simp [Toggle.statement, usbRs485Enable, h]

theorem statement_disable (u : Usb) :
    Toggle.statement^[3] ⟨u, .disableTest⟩ = ⟨usbRs485Disable u, .idle⟩ := by
  by_cases h : u.enabled <;> simp [Toggle.statement, usbRs485Disable, h]

/-- The bridge is enabled if and only if the Modbus task is suspended. -/
def Usb.Agree (u : Usb) : Prop := u.enabled = u.suspended

instance (u : Usb) : Decidable u.Agree := inferInstanceAs (Decidable (_ = _))

/-- The shell does not disable the bridge between `vTaskSuspend` and `s_enabled = true`, and
does not enable it between `s_enabled = false` and `vTaskResume`. -/
def NotInGap (s : Toggle) : ToggleAct → Prop
  | .bridgeOff => s.usb.enabled = true → s.pc ≠ .enableSet
  | .bridgeOn => s.usb.enabled = false → s.pc ≠ .disableResume
  | _ => True

/-- Flag and task agree, but in the two gaps: in the first the task is suspended, in the
second the flag is cleared. -/
structure ToggleInv (s : Toggle) : Prop where
  handle : s.usb.modbusTaskHandle = true
  agree : s.pc ≠ .enableSet → s.pc ≠ .disableResume → s.usb.Agree
  enableSet : s.pc = .enableSet → s.usb.suspended = true
  disableResume : s.pc = .disableResume → s.usb.enabled = false

section

variable {s : Toggle}

@[simp] theorem notifyBridge_enabled (u : Usb) : (notifyBridge u).enabled = u.enabled := by
  rw [notifyBridge]; split <;> rfl

@[simp] theorem notifyBridge_suspended (u : Usb) : (notifyBridge u).suspended = u.suspended := by
  rw [notifyBridge]; split <;> rfl

@[simp] theorem notifyBridge_handle (u : Usb) :
    (notifyBridge u).modbusTaskHandle = u.modbusTaskHandle := by
  rw [notifyBridge]; split <;> rfl

/-- A statement of the USB task. -/
theorem ToggleInv.statement (h : ToggleInv s) : ToggleInv s.statement := by
  obtain ⟨hm, ha, he, hd⟩ := h
  obtain ⟨u, pc⟩ := s
  cases pc with
  | idle => exact ⟨hm, ha, he, hd⟩
  | enableTest =>
    by_cases hu : u.enabled = true <;> simp only [Toggle.statement, hu, if_true]
    · exact ⟨hm, fun _ _ => ha nofun nofun, nofun, nofun⟩
    · exact ⟨hm, fun _ _ => ha nofun nofun, nofun, nofun⟩
  | enableSuspend =>
    simp only [Toggle.statement, suspendModbus, if_pos hm]
    exact ⟨hm, fun h => absurd rfl h, fun _ => rfl, nofun⟩
  | enableSet => exact ⟨hm, fun _ _ => (he rfl).symm, nofun, nofun⟩
  | enableNotify =>
    refine ⟨?_, fun _ _ => ?_, nofun, nofun⟩
    · exact (notifyBridge_handle u).trans hm
    · simpa [Toggle.statement, Usb.Agree] using ha nofun nofun
  | disableTest =>
    by_cases hu : u.enabled = true <;> simp only [Toggle.statement, hu, if_true]
    · exact ⟨hm, fun _ _ => ha nofun nofun, nofun, nofun⟩
    · exact ⟨hm, fun _ _ => ha nofun nofun, nofun, nofun⟩
  | disableClear => exact ⟨hm, fun _ h => absurd rfl h, nofun, fun _ => rfl⟩
  | disableResume =>
    simp only [Toggle.statement, resumeModbus, if_pos hm]
    exact ⟨hm, fun _ _ => hd rfl, nofun, nofun⟩

/-- A call of the shell task. -/
theorem ToggleInv.bridgeOn (h : ToggleInv s) (hg : NotInGap s .bridgeOn) :
    ToggleInv { s with usb := usbRs485Enable s.usb } := by
  obtain ⟨hm, ha, he, hd⟩ := h
  by_cases hu : s.usb.enabled = true
  · rw [usbRs485Enable, if_pos hu]
    exact ⟨hm, ha, he, hd⟩
  · rw [usbRs485Enable, if_neg hu, suspendModbus, if_pos hm]
    refine ⟨?_, fun _ _ => ?_, fun _ => ?_, fun h => ?_⟩
    · exact (notifyBridge_handle _).trans hm
    · simp [Usb.Agree]
    · simp
    · exact absurd h (hg (Bool.eq_false_iff.mpr hu))

theorem ToggleInv.bridgeOff (h : ToggleInv s) (hg : NotInGap s .bridgeOff) :
    ToggleInv { s with usb := usbRs485Disable s.usb } := by
  obtain ⟨hm, ha, he, hd⟩ := h
  by_cases hu : s.usb.enabled = true
  · rw [usbRs485Disable, if_pos hu, resumeModbus, if_pos hm]
    exact ⟨hm, fun _ _ => rfl, fun h => absurd h (hg hu), fun _ => rfl⟩
  · rw [usbRs485Disable, if_neg hu]
    exact ⟨hm, ha, he, hd⟩

theorem ToggleInv.reach (h : toggle.Reach NotInGap s) : ToggleInv s := by
  refine h.inv (fun s hs => ?_) fun s a t hI hg hn => ?_
  · subst hs
    exact ⟨rfl, fun _ _ => rfl, nofun, nofun⟩
  · cases a with
    | lineState itf dtr rts =>
      simp only [toggle] at hn
      split at hn
      · rename_i hpc
        cases hn
        have ha := hI.agree (by rw [hpc]; exact nofun) (by rw [hpc]; exact nofun)
        rw [tudCdcLineStateCb]
        split
        · exact ⟨hI.handle, fun _ _ => ha, nofun, nofun⟩
        · cases dtr <;> exact ⟨hI.handle, fun _ _ => ha, nofun, nofun⟩
      · cases hn
    | usb =>
      simp only [toggle] at hn
      split at hn
      · cases hn
      · cases hn
        exact hI.statement
    | bridgeOn => cases hn; exact hI.bridgeOn hg
    | bridgeOff => cases hn; exact hI.bridgeOff hg

end

/-- In every run in which the shell does not call into the gaps, whenever no call is in
progress the bridge is enabled if and only if the Modbus task is suspended. -/
theorem toggle_agree (s : Toggle) (hr : toggle.Reach NotInGap s) (hidle : s.pc = .idle) :
    s.usb.enabled = true ↔ s.usb.suspended = true := by
  have hagree := (ToggleInv.reach hr).agree (by rw [hidle]; exact nofun) (by rw [hidle]; exact nofun)
  rw [hagree]

/-! ## A call into a gap -/

/-- After a call of the shell into a gap, the USB task ends its call with flag and
task apart. -/
theorem shell_call_parts {s t : Toggle} {a : ToggleAct} (hr : toggle.Reach NotInGap s)
    (hbad : ¬ NotInGap s a) (hn : toggle.next s a = some t) :
    ∃ as u, toggle.Run Lts.any t as u ∧ u.pc = .idle ∧ ¬ u.usb.Agree := by
  have hm := (ToggleInv.reach hr).handle
  cases a with
  | lineState itf dtr rts => exact absurd trivial hbad
  | usb => exact absurd trivial hbad
  | bridgeOff =>
    obtain ⟨he, hpc⟩ : s.usb.enabled = true ∧ s.pc = .enableSet := by
      simpa [NotInGap] using hbad
    obtain ⟨u, pc⟩ := s
    subst hpc
    cases hn
    change u.enabled = true at he
    change u.modbusTaskHandle = true at hm
    refine ⟨[.usb, .usb], _, .cons trivial rfl (.cons trivial rfl .nil), rfl, ?_⟩
    simp [Toggle.statement, Usb.Agree, usbRs485Disable, resumeModbus, he, hm]
  | bridgeOn =>
    obtain ⟨he, hpc⟩ : s.usb.enabled = false ∧ s.pc = .disableResume := by
      simpa [NotInGap] using hbad
    obtain ⟨u, pc⟩ := s
    subst hpc
    cases hn
    change u.enabled = false at he
    change u.modbusTaskHandle = true at hm
    refine ⟨[.usb], _, .cons trivial rfl .nil, rfl, ?_⟩
    simp [Toggle.statement, Usb.Agree, usbRs485Enable, resumeModbus, suspendModbus, he, hm]

/-- The host opens the bridge; a `bridge_off` before the flag is set does nothing. -/
theorem toggle_agree_enabled :
    (Usb.enabled ⟨true, true, true, true, 1⟩ = true ↔
      Usb.suspended ⟨true, true, true, true, 1⟩ = true) :=
  toggle_agree ⟨⟨true, true, true, true, 1⟩, .idle⟩
    (Lts.Reach.of_init rfl
      |>.step (a := .lineState 1 true true) trivial rfl
      |>.step (a := .usb) trivial rfl
      |>.step (a := .bridgeOff) (fun h => by cases h) rfl
      |>.step (a := .usb) trivial rfl
      |>.step (a := .usb) trivial rfl
      |>.step (a := .usb) trivial rfl)
    rfl

/-- The host opens the bridge; before `s_enabled = true` the shell enables and disables it.
The bridge ends enabled with the Modbus task running. -/
theorem not_toggle_agree : ¬ ∀ s : Toggle, toggle.Reach Lts.any s → s.pc = .idle →
    (s.usb.enabled = true ↔ s.usb.suspended = true) := by
  intro h
  have hr := Lts.Run.any_of_exec toggle ⟨.init, .idle⟩
    [.lineState 1 true true, .usb, .usb, .bridgeOn, .bridgeOff, .usb, .usb] (by decide)
  exact absurd (h _ ⟨_, _, rfl, hr⟩ (by decide)) (by decide)

end Rs485.UsbRs485
