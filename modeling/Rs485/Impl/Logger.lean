import Mathlib.Logic.Function.Basic
import Rs485.Impl.UsbRs485

/-!
# The logger and the tasks that log (`logger.c`, `modbus_service.c`)

`log_func` prints under `logger_mutex` (`FREE_RTOS`). In the system `logger` all tasks
share it: `modbus_task`, whose register callbacks and heartbeat log, `bridge_task`,
which logs after its transfers, the USB and the shell task, which call
`usb_rs485_enable` and `usb_rs485_disable`, and any others. A suspended task
does not run; in particular it does not take the mutex when it becomes free.
-/

namespace Rs485.UsbRs485

open Rs485.Framework

/-- The tasks. -/
inductive Task
  | modbus | bridge | usb | shell
  | other (n : Nat)
deriving DecidableEq, Repr

/-- Where a task is in `log_func`. -/
inductive LogPc
  /-- In `xSemaphoreTake`. -/
  | take
  /-- Before the output. -/
  | print
  /-- Before `xSemaphoreGive`. -/
  | give
deriving DecidableEq, Repr

/-- `LOGGER_INFO`. -/
abbrev loggerInfo : Nat := 3

/-- `log_func` of the task `t` runs on: where it is then (nowhere if it returns) and the owner
of the mutex. It blocks in `xSemaphoreTake` while the mutex has an owner. -/
def logFunc (t : Task) (owner : Option Task) : LogPc → Option (Option LogPc × Option Task)
  | .take => if owner = none then some (some .print, some t) else none
  | .print => some (some .give, owner)
  | .give => some (none, none)

/-- `MODBUS_HEARTBEAT_EVERY_N_POLLS`. -/
abbrev modbusHeartbeatEveryNPolls : Nat := 1000 / 20

/-- Where `modbus_task` is. -/
inductive ModbusPc
  /-- In `eMBPoll`, whose register callbacks log. -/
  | poll
  /-- Before `vMBPortSerialPoll`. -/
  | serialPoll
  /-- Before `user_mb_app_poll`. -/
  | appPoll
  /-- Before `poll_count++`. -/
  | count
  /-- Before `vTaskDelay`. -/
  | delay
deriving DecidableEq, Repr

/-- The bridge with the calls of the USB task, the tasks, the logger's level, where each task is
in `log_func`, and the owner of `logger_mutex`. -/
structure Logger where
  toggle : Toggle
  bridgePc : BridgePc
  modbusPc : ModbusPc
  pollCount : Nat
  logLevel : Nat
  inLog : Task → Option LogPc
  owner : Option Task

/-- The task is suspended. -/
def Logger.Suspended (s : Logger) (t : Task) : Prop := t = .modbus ∧ s.toggle.usb.suspended = true

instance (s : Logger) (t : Task) : Decidable (s.Suspended t) := inferInstanceAs (Decidable (_ ∧ _))

/-- `LOGI`: the task `t` enters `log_func`, unless the level is too low. -/
def Logger.logi (s : Logger) (t : Task) : Logger :=
  if s.logLevel < loggerInfo then s else { s with inLog := Function.update s.inLog t (some .take) }

/-- `modbus_task` to the next point. -/
def modbusTask (callbackLogs : Bool) (s : Logger) : Logger :=
  match s.modbusPc with
  | .poll => if callbackLogs then s.logi .modbus else { s with modbusPc := .serialPoll }
  | .serialPoll => { s with modbusPc := .appPoll }
  | .appPoll => { s with modbusPc := .count }
  | .count =>
    let s := { s with modbusPc := .delay, pollCount := s.pollCount + 1 }
    if modbusHeartbeatEveryNPolls ≤ s.pollCount then { s with pollCount := 0 }.logi .modbus else s
  | .delay => { s with modbusPc := .poll }

/-- The task that runs a step of the two triggers. -/
def caller : ToggleAct → Task
  | .lineState _ _ _ => .usb
  | .usb => .usb
  | .bridgeOn => .shell
  | .bridgeOff => .shell

/-- What happens: a step of the two triggers, of `modbus_task` or of `bridge_task`; another task
calls `LOGI`; or a task in `log_func` runs on. -/
inductive LoggerAct
  | toggle (a : ToggleAct)
  | modbus (callbackLogs : Bool)
  | bridge (tudMounted logs : Bool)
  | logi (t : Task)
  | log (t : Task)
deriving DecidableEq, Repr

/-- The tasks after they were created; `bridge_task` begins with a `LOGI`. -/
def Logger.init (logLevel : Nat) : Logger :=
  Logger.logi ⟨⟨.init, .idle⟩, .mounted, .poll, 0, logLevel, fun _ => none, none⟩ .bridge

/-- The tasks and the logger. -/
def logger : Lts Logger LoggerAct where
  init s := ∃ logLevel, s = .init logLevel
  next s
    | .toggle a =>
      if s.inLog (caller a) = none then
        (toggle.next s.toggle a).map fun t => { s with toggle := t }
      else none
    | .modbus callbackLogs =>
      if s.inLog .modbus = none ∧ ¬ s.Suspended .modbus then some (modbusTask callbackLogs s) else none
    | .bridge tudMounted logs =>
      if s.inLog .bridge = none then
        if s.bridgePc = .transfer ∧ logs then some (s.logi .bridge)
        else (bridgeTask tudMounted ⟨s.toggle.usb, s.bridgePc⟩).map fun b =>
          { s with toggle.usb := b.usb, bridgePc := b.pc }
      else none
    | .logi t =>
      if s.inLog t = none ∧ t ≠ .modbus ∧ t ≠ .bridge then some (s.logi t) else none
    | .log t =>
      if s.Suspended t then none
      else
        (s.inLog t).bind fun pc =>
          (logFunc t s.owner pc).map fun r =>
            { s with inLog := Function.update s.inLog t r.1, owner := r.2 }

end Rs485.UsbRs485
