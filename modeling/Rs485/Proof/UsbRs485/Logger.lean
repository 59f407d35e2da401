import Rs485.Impl.Logger
import Rs485.Proof.UsbRs485.Toggle
import Rs485.Proof.UsbRs485.Unplug

/-!
# The owner of the logger's mutex and suspension

`vTaskSuspend` stops the Modbus task wherever it is. In a run the owner of
`logger_mutex` is never suspended if and only if no step suspends the Modbus task
while it owns the mutex (`logger_iff`).
-/

namespace Rs485.UsbRs485

open Rs485.Framework

/-- While the Modbus task is suspended it does not own the mutex; and where `bridge_task` waits
for the mutex, its owner is not suspended. -/
structure OwnerRuns (s : Logger) : Prop where
  modbus : s.Suspended .modbus → s.owner ≠ some .modbus
  bridge : s.inLog .bridge = some .take → ∀ t, s.owner = some t → ¬ s.Suspended t

/-- The step is the `vTaskSuspend` of a call of `usb_rs485_enable`. -/
def Suspends (u : Toggle) : ToggleAct → Bool
  | .usb => u.pc = .enableSuspend
  | .bridgeOn => u.usb.enabled = false
  | _ => false

/-- No step suspends the Modbus task while it owns the mutex. -/
def NotOwner (s : Logger) : LoggerAct → Prop
  | .toggle a => Suspends s.toggle a = true → s.owner ≠ some .modbus
  | _ => True

instance (s : Logger) : (a : LoggerAct) → Decidable (NotOwner s a)
  | .toggle _ => inferInstanceAs (Decidable (_ → _))
  | .modbus _ => .isTrue trivial
  | .bridge _ _ => .isTrue trivial
  | .logi _ => .isTrue trivial
  | .log _ => .isTrue trivial

/-- A suspended Modbus task does not own the mutex. -/
structure LoggerInv (s : Logger) : Prop where
  handle : s.toggle.usb.modbusTaskHandle = true
  owner : s.Suspended .modbus → s.owner ≠ some .modbus

section

variable {s t : Logger}

theorem LoggerInv.ownerRuns (h : LoggerInv s) : OwnerRuns s := by
  refine ⟨h.owner, fun _ t ht hs => ?_⟩
  obtain ⟨rfl, -⟩ := id hs
  exact h.owner hs ht

/-- A step that leaves the triggers and the mutex alone. -/
theorem LoggerInv.congr (h : LoggerInv s) (hu : t.toggle.usb.modbusTaskHandle = true)
    (hs : t.toggle.usb.suspended = s.toggle.usb.suspended) (ho : t.owner = s.owner) : LoggerInv t := by
  refine ⟨hu, fun ht => ?_⟩
  rw [ho]
  exact h.owner ⟨rfl, hs.symm.trans ht.2⟩

@[simp] theorem logi_toggle (s : Logger) (k : Task) : (s.logi k).toggle = s.toggle := by
  rw [Logger.logi]; split <;> rfl

@[simp] theorem logi_owner (s : Logger) (k : Task) : (s.logi k).owner = s.owner := by
  rw [Logger.logi]; split <;> rfl

@[simp] theorem modbusTask_toggle (b : Bool) (s : Logger) : (modbusTask b s).toggle = s.toggle := by
  cases h : s.modbusPc <;> simp only [modbusTask, h] <;> (try split) <;> simp

@[simp] theorem modbusTask_owner (b : Bool) (s : Logger) : (modbusTask b s).owner = s.owner := by
  cases h : s.modbusPc <;> simp only [modbusTask, h] <;> (try split) <;> simp

/-- What a step of the two triggers does to the Modbus task: a `vTaskSuspend` suspends it, any
other step leaves it as it is or resumes it. -/
theorem toggle_suspended {u u' : Toggle} {a : ToggleAct} (hm : u.usb.modbusTaskHandle = true)
    (hn : toggle.next u a = some u') :
    u'.usb.modbusTaskHandle = true ∧ (Suspends u a = true → u'.usb.suspended = true) ∧
      (Suspends u a = false → u'.usb.suspended = true → u.usb.suspended = true) := by
  obtain ⟨usb, pc⟩ := u
  change usb.modbusTaskHandle = true at hm
  cases a with
  | lineState itf dtr rts =>
    simp only [toggle] at hn
    split at hn
    · cases hn
      exact ⟨hm, by simp [Suspends], fun _ h => h⟩
    · cases hn
  | usb =>
    simp only [toggle] at hn
    split at hn
    · cases hn
    · cases hn
      cases pc <;> simp [Toggle.statement, Suspends, suspendModbus, resumeModbus, hm]
  | bridgeOn =>
    cases hn
    by_cases he : usb.enabled = true
    · rw [usbRs485Enable, if_pos he]
      exact ⟨hm, by simp [Suspends, he], fun _ h => h⟩
    · rw [usbRs485Enable, if_neg he, suspendModbus, if_pos hm]
      exact ⟨by simpa using hm, fun _ => by simp, by simp [Suspends, he]⟩
  | bridgeOff =>
    cases hn
    rw [usbRs485Disable]
    split
    · rw [resumeModbus, if_pos hm]
      exact ⟨hm, by simp [Suspends], by simp⟩
    · exact ⟨hm, by simp [Suspends], fun _ h => h⟩

/-- A step in `log_func`: only a task that runs becomes the owner. -/
theorem LoggerInv.log (h : LoggerInv s) {k : Task} (hn : logger.next s (.log k) = some t) :
    LoggerInv t := by
  change (if s.Suspended k then none else _) = some t at hn
  split at hn
  · cases hn
  · rename_i hruns
    obtain ⟨pc, -, hn⟩ := Option.bind_eq_some_iff.mp hn
    obtain ⟨r, hr, rfl⟩ := Option.map_eq_some_iff.mp hn
    refine ⟨h.handle, fun hs => ?_⟩
    cases pc with
    | take =>
      simp only [logFunc] at hr
      split at hr
      · cases hr
        intro hk
        cases hk
        exact hruns hs
      · cases hr
    | print => cases hr; exact h.owner hs
    | give => cases hr; exact nofun

/-- A step of the two triggers. -/
theorem LoggerInv.toggle {a : ToggleAct} (h : LoggerInv s) (hok : NotOwner s (.toggle a))
    (hn : logger.next s (.toggle a) = some t) : LoggerInv t := by
  simp only [logger] at hn
  split at hn
  · obtain ⟨u, hu, rfl⟩ := Option.map_eq_some_iff.mp hn
    obtain ⟨hm, -, hkeep⟩ := toggle_suspended h.handle hu
    refine ⟨hm, fun hs => ?_⟩
    cases ha : Suspends s.toggle a with
    | true => exact hok ha
    | false => exact h.owner ⟨rfl, hkeep ha hs.2⟩
  · cases hn

/-- Any other step. -/
theorem LoggerInv.step {a : LoggerAct} (h : LoggerInv s) (hok : NotOwner s a)
    (hn : logger.next s a = some t) : LoggerInv t := by
  cases a with
  | toggle a => exact h.toggle hok hn
  | modbus callbackLogs =>
    simp only [logger] at hn
    split at hn
    · cases hn
      exact h.congr (by simpa using h.handle) (by simp) (by simp)
    · cases hn
  | bridge tudMounted logs =>
    simp only [logger] at hn
    split at hn
    · split at hn
      · cases hn
        exact h.congr (by simpa using h.handle) (by simp) (by simp)
      · obtain ⟨b, hb, rfl⟩ := Option.map_eq_some_iff.mp hn
        obtain ⟨hm, -, hs⟩ := bridgeTask_usb hb
        exact h.congr (hm.trans h.handle) hs rfl
    · cases hn
  | logi k =>
    simp only [logger] at hn
    split at hn
    · cases hn
      exact h.congr (by simpa using h.handle) (by simp) (by simp)
    · cases hn
  | log k => exact h.log hn

/-- A `vTaskSuspend` while the Modbus task owns the mutex. -/
theorem LoggerInv.breaks {a : LoggerAct} (h : LoggerInv s) (hbad : ¬ NotOwner s a)
    (hn : logger.next s a = some t) : ¬ OwnerRuns t := by
  cases a with
  | toggle a =>
    obtain ⟨ha, ho⟩ := Classical.not_imp.mp hbad
    simp only [logger] at hn
    split at hn
    · obtain ⟨u, hu, rfl⟩ := Option.map_eq_some_iff.mp hn
      obtain ⟨-, hs, -⟩ := toggle_suspended h.handle hu
      exact fun hr => ho fun hk => hr.modbus ⟨rfl, hs ha⟩ hk
    · cases hn
  | modbus callbackLogs => exact absurd trivial hbad
  | bridge tudMounted logs => exact absurd trivial hbad
  | logi k => exact absurd trivial hbad
  | log k => exact absurd trivial hbad

end

/-- In a run the Modbus task owns the mutex in no state in which it is suspended, and `bridge_task`
never waits for a suspended owner, if and only if no `vTaskSuspend` of
`usb_rs485_enable` comes while the Modbus task owns the mutex. -/
theorem logger_iff (s t : Logger) (as : List LoggerAct) (hi : logger.init s)
    (hr : logger.Run Lts.any s as t) :
    logger.Always OwnerRuns s as t ↔ logger.Run NotOwner s as t := by
  have hinit : LoggerInv s := by
    obtain ⟨logLevel, rfl⟩ := hi
    exact ⟨by simp [Logger.init, Usb.init], fun h => by simp [Logger.Suspended, Logger.init, Usb.init] at h⟩
  exact hr.always_iff hinit (fun _ h => h.ownerRuns) (fun _ _ _ h _ hok hn => h.step hok hn)
    fun _ _ _ h _ hbad hn => h.breaks hbad hn

/-- A register callback logs, then the host opens the bridge. -/
def logThenOpen : List LoggerAct :=
  [.modbus true, .log .bridge, .log .bridge, .log .bridge, .log .modbus, .log .modbus, .log .modbus,
    .toggle (.lineState 1 true true), .toggle .usb, .toggle .usb]

theorem logger_iff_logThenOpen :
    logger.Always OwnerRuns (.init 4) logThenOpen (logger.exec (fun _ _ => true) (.init 4) logThenOpen).1 ↔
      logger.Run NotOwner (.init 4) logThenOpen (logger.exec (fun _ _ => true) (.init 4) logThenOpen).1 := by
  have hr := Lts.Run.any_of_exec logger (.init 4) logThenOpen (by decide +kernel)
  exact logger_iff _ _ _ ⟨4, rfl⟩ hr

/-- The host opens the bridge while a register callback prints: the Modbus task is suspended with
the mutex. -/
theorem not_logger : ¬ ∀ s : Logger, logger.Reach Lts.any s →
    s.Suspended .modbus → s.owner ≠ some .modbus := by
  intro h
  have hr := Lts.Run.any_of_exec logger (.init 4)
    [.modbus true, .log .bridge, .log .bridge, .log .bridge, .log .modbus,
      .toggle (.lineState 1 true true), .toggle .usb, .toggle .usb] (by decide +kernel)
  exact h _ ⟨_, _, ⟨4, rfl⟩, hr⟩ (by decide +kernel) (by decide +kernel)

end Rs485.UsbRs485
