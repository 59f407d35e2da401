import Rs485.Framework.Lts

/-!
# The USB to RS485 bridge (`usb_rs485.c`)

`usb_rs485_enable` and `usb_rs485_disable` on the bridge's flag, the Modbus
task and the notification value of the bridge task, and two systems they are
part of: `bridge`, in which the calls are atomic and `bridge_task` loops, and
`toggle`, in which a call made by the USB task is run a statement at a time and
the shell task, of a higher priority, calls in between.
-/

namespace Rs485.UsbRs485

open Rs485.Framework

/-- The static variables of the bridge (of the handles, whether they are not NULL), whether the
Modbus task is suspended, and the notification value of the bridge task. -/
structure Usb where
  bridgeTaskHandle : Bool
  modbusTaskHandle : Bool
  enabled : Bool
  suspended : Bool
  notified : BitVec 32
deriving DecidableEq, Repr

/-- `vTaskSuspend( s_modbus_task_handle )`, behind its test. -/
def suspendModbus (u : Usb) : Usb := if u.modbusTaskHandle then { u with suspended := true } else u

/-- `vTaskResume( s_modbus_task_handle )`, behind its test. -/
def resumeModbus (u : Usb) : Usb := if u.modbusTaskHandle then { u with suspended := false } else u

/-- `xTaskNotifyGive( s_bridge_task_handle )`, behind its test. -/
def notifyBridge (u : Usb) : Usb :=
  if u.bridgeTaskHandle then { u with notified := u.notified + 1 } else u

/-- `usb_rs485_enable`. -/
def usbRs485Enable (u : Usb) : Usb :=
  if u.enabled then u else notifyBridge { suspendModbus u with enabled := true }

/-- `usb_rs485_disable`. -/
def usbRs485Disable (u : Usb) : Usb :=
  if u.enabled then resumeModbus { u with enabled := false } else u

/-- The bridge after the tasks were created. -/
def Usb.init : Usb := ⟨true, true, false, false, 0⟩

/-! ## The bridge task -/

/-- Where `bridge_task` is. -/
inductive BridgePc
  /-- Before `tud_mounted()`. -/
  | mounted
  /-- Before `if (!s_enabled)`. -/
  | check
  /-- In `ulTaskNotifyTake`. -/
  | take
  /-- Before the transfers. -/
  | transfer
  /-- Before `vTaskDelay`. -/
  | delay
deriving DecidableEq, Repr

/-- The bridge and its task. -/
structure Bridge where
  usb : Usb
  pc : BridgePc
deriving DecidableEq, Repr

/-- What happens: a call of `usb_rs485_enable` or `usb_rs485_disable`, or `bridge_task` runs on. -/
inductive BridgeAct
  | enable
  | disable
  | task (tudMounted : Bool)
deriving DecidableEq, Repr

/-- `bridge_task` from where it is to the next point; it blocks in `ulTaskNotifyTake`
while its notification value is 0. -/
def bridgeTask (tudMounted : Bool) (s : Bridge) : Option Bridge :=
  match s.pc with
  | .mounted => some { s with pc := if tudMounted then .check else .mounted }
  | .check => some { s with pc := if s.usb.enabled then .transfer else .take }
  | .take =>
    if s.usb.notified = 0 then none
    else some { s with usb.notified := 0, pc := .transfer }
  | .transfer => some { s with pc := .delay }
  | .delay => some { s with pc := .mounted }

/-- The bridge task among calls of the two functions. -/
def bridge : Lts Bridge BridgeAct where
  init s := s = ⟨.init, .mounted⟩
  next s
    | .enable => some { s with usb := usbRs485Enable s.usb }
    | .disable => some { s with usb := usbRs485Disable s.usb }
    | .task tudMounted => bridgeTask tudMounted s

/-! ## The two triggers -/

/-- `BSP_USB_BRIDGE_CH`. -/
abbrev bspUsbBridgeCh : BitVec 8 := 1

/-- Where the USB task is in a call of `tud_cdc_line_state_cb`. -/
inductive CallPc
  /-- In no call. -/
  | idle
  /-- In `usb_rs485_enable`, before the test of `s_enabled`. -/
  | enableTest
  /-- Before `vTaskSuspend`. -/
  | enableSuspend
  /-- Before `s_enabled = true`. -/
  | enableSet
  /-- Before `xTaskNotifyGive`. -/
  | enableNotify
  /-- In `usb_rs485_disable`, before the test of `s_enabled`. -/
  | disableTest
  /-- Before `s_enabled = false`. -/
  | disableClear
  /-- Before `vTaskResume`. -/
  | disableResume
deriving DecidableEq, Repr

/-- The bridge, and the call of the USB task. -/
structure Toggle where
  usb : Usb
  pc : CallPc
deriving DecidableEq, Repr

/-- `tud_cdc_line_state_cb`, up to the first statement of the function it calls. -/
def tudCdcLineStateCb (itf : BitVec 8) (dtr _rts : Bool) : CallPc :=
  if itf ≠ bspUsbBridgeCh then .idle else if dtr then .enableTest else .disableTest

/-- The next statement of the call. -/
def Toggle.statement (s : Toggle) : Toggle :=
  match s.pc with
  | .idle => s
  | .enableTest => { s with pc := if s.usb.enabled then .idle else .enableSuspend }
  | .enableSuspend => ⟨suspendModbus s.usb, .enableSet⟩
  | .enableSet => ⟨{ s.usb with enabled := true }, .enableNotify⟩
  | .enableNotify => ⟨notifyBridge s.usb, .idle⟩
  | .disableTest => { s with pc := if s.usb.enabled then .disableClear else .idle }
  | .disableClear => ⟨{ s.usb with enabled := false }, .disableResume⟩
  | .disableResume => ⟨resumeModbus s.usb, .idle⟩

/-- What happens: the host sets the line state, the USB task runs a statement of its call,
or the shell runs `bridge_on` or `bridge_off`. -/
inductive ToggleAct
  | lineState (itf : BitVec 8) (dtr rts : Bool)
  | usb
  | bridgeOn
  | bridgeOff
deriving DecidableEq, Repr

/-- The calls of the USB task, interrupted by those of the shell task. -/
def toggle : Lts Toggle ToggleAct where
  init s := s = ⟨.init, .idle⟩
  next s
    | .lineState itf dtr rts =>
      if s.pc = .idle then some { s with pc := tudCdcLineStateCb itf dtr rts } else none
    | .usb => if s.pc = .idle then none else some s.statement
    | .bridgeOn => some { s with usb := usbRs485Enable s.usb }
    | .bridgeOff => some { s with usb := usbRs485Disable s.usb }

end Rs485.UsbRs485
