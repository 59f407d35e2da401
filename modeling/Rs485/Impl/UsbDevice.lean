import Mathlib.Logic.Function.Basic
import Rs485.Impl.UsbRs485

/-!
# The USB device under the bridge (`usbd.c`, `dcd_stm32_fsdev.c`, `cdc_device.c`, `usb_netif.c`)

What the USB task does of the device stack that the bridge can see: a
SET_CONTROL_LINE_STATE request stores the line state of a CDC interface and calls
`tud_cdc_line_state_cb`; a bus reset and a change of configuration clear the line
state of all CDC interfaces (`cdcd_reset`) and call back, if at all, `tud_umount_cb`
and `tud_mount_cb`. The controller does not watch VBUS, so that its driver takes a
cable that is pulled for a suspend. `bridge_task` runs between the events, and the
shell gives no order.
-/

namespace Rs485.UsbRs485

open Rs485.Framework

/-- `CFG_TUD_CDC`: the shell and the bridge. -/
abbrev cfgTudCdc : BitVec 8 := 2

/-- `_usbd_dev` and `_cdcd_itf`: whether a setup packet has come and whether the bus is suspended,
the configuration, whether interfaces are mapped to drivers (`itf2drv`), and the line state of
each CDC interface. -/
structure UsbdDevice where
  connected : Bool
  suspended : Bool
  cfgNum : BitVec 8
  itf2drv : Bool
  lineState : BitVec 8 → BitVec 8

/-- `tud_mounted`. -/
def UsbdDevice.mounted (d : UsbdDevice) : Bool := d.cfgNum ≠ 0

/-- The DTR bit of an interface, which `tud_cdc_n_connected` tests. -/
def UsbdDevice.dtr (d : UsbdDevice) (itf : BitVec 8) : Bool := (d.lineState itf).getLsbD 0

/-- `cdcd_reset`. -/
def cdcdReset (d : UsbdDevice) : UsbdDevice := { d with lineState := fun _ => 0 }

/-- `configuration_reset`. -/
def configurationReset (d : UsbdDevice) : UsbdDevice :=
  { cdcdReset d with connected := false, suspended := false, cfgNum := 0, itf2drv := false }

/-- `DCD_EVENT_SUSPEND` and `DCD_EVENT_RESUME`. -/
inductive BusSignal
  | suspend | resume
deriving DecidableEq, Repr

/-- The device, the signals in its queue, whether the cable is in, and the bridge. -/
structure UsbSys where
  device : UsbdDevice
  signals : List BusSignal
  attached : Bool
  bridge : Bridge

/-- `tud_cdc_line_state_cb`. -/
def lineStateCall (itf : BitVec 8) (dtr rts : Bool) (u : Usb) : Usb :=
  match tudCdcLineStateCb itf dtr rts with
  | .enableTest => usbRs485Enable u
  | .disableTest => usbRs485Disable u
  | _ => u

/-- `tud_mount_cb`: it is about the LED and the network interface. -/
def tudMountCb (u : Usb) : Usb := u

/-- `tud_umount_cb`: it is about the LED and the network interface. -/
def tudUmountCb (u : Usb) : Usb := u

/-- `tud_suspend_cb`: it is about the LED. -/
def tudSuspendCb (u : Usb) : Usb := u

/-- `tud_resume_cb`: it is about the LED. -/
def tudResumeCb (u : Usb) : Usb := u

/-- SET_CONTROL_LINE_STATE at the acknowledge stage (`cdcd_control_xfer_cb`). -/
def setControlLineState (itf : BitVec 8) (wValue : BitVec 16) (s : UsbSys) : UsbSys :=
  { s with
    device.lineState := Function.update s.device.lineState itf (wValue.setWidth 8)
    bridge.usb := lineStateCall itf (wValue.getLsbD 0) (wValue.getLsbD 1) s.bridge.usb }

/-- SET_CONFIGURATION (`process_std_device_request`): `process_set_config` maps interfaces to
drivers or not, and succeeds or not. -/
def setConfiguration (cfgNum : BitVec 8) (opened ok : Bool) (s : UsbSys) : UsbSys :=
  if s.device.cfgNum = cfgNum then
    s
  else
    let d := if s.device.cfgNum ≠ 0 then configurationReset s.device else s.device
    if cfgNum = 0 then
      { s with device := { d with cfgNum := 0 }, bridge.usb := tudUmountCb s.bridge.usb }
    else if ok then
      { s with
        device := { d with cfgNum := cfgNum, itf2drv := true }
        bridge.usb := tudMountCb s.bridge.usb }
    else
      { s with device := { d with cfgNum := 0, itf2drv := opened } }

/-- `dcd_event_handler`, which the interrupt calls with a signal. -/
def dcdEventHandler (e : BusSignal) (s : UsbSys) : UsbSys :=
  if s.device.connected then
    { s with device.suspended := e = .suspend, signals := s.signals ++ [e] }
  else s

/-- The USB task takes the signal `e` from the queue (`tud_task_ext`). -/
def handleSignal (e : BusSignal) (s : UsbSys) : UsbSys :=
  if s.device.connected then
    { s with
      bridge.usb := match e with
        | .suspend => tudSuspendCb s.bridge.usb
        | .resume => tudResumeCb s.bridge.usb }
  else s

/-- What happens: an event that the USB task handles, an interrupt with a signal, the cable is
pulled or plugged in, or `bridge_task` runs on. -/
inductive UsbAct
  /-- A setup packet of a request that changes nothing else here. -/
  | setup
  | lineState (itf : BitVec 8) (wValue : BitVec 16)
  | busReset
  | setConfiguration (cfgNum : BitVec 8) (opened ok : Bool)
  | signalIsr (e : BusSignal)
  | signal
  | pull
  | plug
  | task
deriving DecidableEq, Repr

/-- The device before it is attached, with the tasks created. -/
def UsbSys.init : UsbSys := ⟨⟨false, false, 0, false, fun _ => 0⟩, [], false, ⟨.init, .mounted⟩⟩

/-- The events of the device, and the bridge task. A request to an interface that is mapped to
no driver stalls. What the host sent before the cable was pulled may be handled after it. -/
def usbDevice : Lts UsbSys UsbAct where
  init s := s = .init
  next s
    | .setup => some { s with device.connected := true }
    | .lineState itf wValue =>
      if s.device.itf2drv ∧ itf < cfgTudCdc then some (setControlLineState itf wValue s) else none
    | .busReset => some { s with device := configurationReset s.device }
    | .setConfiguration cfgNum opened ok =>
      some (setConfiguration cfgNum opened ok { s with device.connected := true })
    | .signalIsr e => some (dcdEventHandler e s)
    | .signal =>
      match s.signals with
      | [] => none
      | e :: signals => some (handleSignal e { s with signals := signals })
    | .pull => if s.attached then some { dcdEventHandler .suspend s with attached := false } else none
    | .plug => if s.attached then none else some { s with attached := true }
    | .task => (bridgeTask s.device.mounted s.bridge).map fun b => { s with bridge := b }

end Rs485.UsbRs485
