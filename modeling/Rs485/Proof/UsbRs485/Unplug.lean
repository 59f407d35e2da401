import Rs485.Impl.UsbDevice

/-!
# The bridge after a bus reset, and after the cable is pulled

`s_enabled` follows DTR of the bridge interface through
`tud_cdc_line_state_cb`, which the device stack does not call when it clears the
line state itself, or when the cable is pulled. In a run the bridge is enabled only
under DTR and with the cable in, in every state, if and only if the configuration is
cleared and the cable pulled only while DTR is clear, and DTR is not set by a request
that is handled when the cable is out (`unplug_iff`).
-/

namespace Rs485.UsbRs485

open Rs485.Framework

/-- The bridge is enabled only while the cable is in and DTR of its interface set, and Modbus is
suspended just then. -/
def UnderDtr (s : UsbSys) : Prop :=
  (s.bridge.usb.enabled = true → s.attached = true ∧ s.device.dtr bspUsbBridgeCh = true) ∧
    s.bridge.usb.suspended = s.bridge.usb.enabled

instance (s : UsbSys) : Decidable (UnderDtr s) := inferInstanceAs (Decidable (_ ∧ _))

/-- The event clears the configuration. -/
def Clears (d : UsbdDevice) : UsbAct → Bool
  | .busReset => true
  | .setConfiguration cfgNum _ _ => d.cfgNum ≠ 0 ∧ d.cfgNum ≠ cfgNum
  | _ => false

/-- The event is a request that sets DTR of the bridge interface. -/
def Opens : UsbAct → Bool
  | .lineState itf wValue => itf = bspUsbBridgeCh ∧ wValue.getLsbD 0
  | _ => false

/-- The configuration is cleared, and the cable pulled, only while DTR of the bridge interface
is clear, and DTR is set only while the cable is in. -/
def ClearsClosed (s : UsbSys) (a : UsbAct) : Prop :=
  (Clears s.device a = true ∨ a = .pull → s.device.dtr bspUsbBridgeCh = false) ∧
    (Opens a = true → s.attached = true)

instance (s : UsbSys) (a : UsbAct) : Decidable (ClearsClosed s a) :=
  inferInstanceAs (Decidable (_ ∧ _))

/-- The bridge is enabled just while DTR of its interface is set, which it is only with the cable
in, and Modbus suspended just then. -/
structure UnplugInv (s : UsbSys) : Prop where
  handle : s.bridge.usb.modbusTaskHandle = true
  enabled : s.bridge.usb.enabled = s.device.dtr bspUsbBridgeCh
  suspended : s.bridge.usb.suspended = s.bridge.usb.enabled
  attached : s.device.dtr bspUsbBridgeCh = true → s.attached = true

section

variable {s t : UsbSys} {u : Usb}

theorem UnplugInv.underDtr (h : UnplugInv s) : UnderDtr s :=
  ⟨fun he => ⟨h.attached (h.enabled.symm.trans he), h.enabled.symm.trans he⟩, h.suspended⟩

@[simp] theorem dtr_configurationReset (d : UsbdDevice) (itf : BitVec 8) :
    (configurationReset d).dtr itf = false := by
  simp [configurationReset, cdcdReset, UsbdDevice.dtr]

/-- The two functions, on the flag and the task. -/
theorem usbRs485Enable_spec (hm : u.modbusTaskHandle = true) (hs : u.suspended = u.enabled) :
    (usbRs485Enable u).modbusTaskHandle = true ∧ (usbRs485Enable u).enabled = true ∧
      (usbRs485Enable u).suspended = true := by
  rw [usbRs485Enable]
  split
  · rename_i he
    exact ⟨hm, he, hs.trans he⟩
  · rw [suspendModbus, if_pos hm, notifyBridge]
    split <;> exact ⟨hm, rfl, rfl⟩

theorem usbRs485Disable_spec (hm : u.modbusTaskHandle = true) (hs : u.suspended = u.enabled) :
    (usbRs485Disable u).modbusTaskHandle = true ∧ (usbRs485Disable u).enabled = false ∧
      (usbRs485Disable u).suspended = false := by
  rw [usbRs485Disable]
  split
  · rw [resumeModbus, if_pos hm]
    exact ⟨hm, rfl, rfl⟩
  · rename_i he
    simp only [Bool.not_eq_true] at he
    exact ⟨hm, he, hs.trans he⟩

/-- `bridge_task` does not change flag or task. -/
theorem bridgeTask_usb {b b' : Bridge} {mounted : Bool} (h : bridgeTask mounted b = some b') :
    b'.usb.modbusTaskHandle = b.usb.modbusTaskHandle ∧ b'.usb.enabled = b.usb.enabled ∧
      b'.usb.suspended = b.usb.suspended := by
  rw [bridgeTask] at h
  split at h
  case h_3 =>
    split at h
    · cases h
    · cases h
      exact ⟨rfl, rfl, rfl⟩
  all_goals
    cases h
    exact ⟨rfl, rfl, rfl⟩

theorem UnplugInv.congr (h : UnplugInv s) (husb : t.bridge.usb = s.bridge.usb)
    (hdtr : t.device.dtr bspUsbBridgeCh = s.device.dtr bspUsbBridgeCh)
    (hatt : s.attached = true → t.attached = true) : UnplugInv t where
  handle := by rw [husb, h.handle]
  enabled := by rw [husb, hdtr, h.enabled]
  suspended := by rw [husb, h.suspended]
  attached := by
    rw [hdtr]
    exact fun hd => hatt (h.attached hd)

theorem setControlLineState_opens {wValue : BitVec 16} (hw : wValue.getLsbD 0 = true) :
    (setControlLineState bspUsbBridgeCh wValue s).bridge.usb = usbRs485Enable s.bridge.usb := by
  simp only [setControlLineState, lineStateCall, tudCdcLineStateCb, hw, ne_eq, not_true, if_false,
    if_true]

/-- A line state request. -/
theorem UnplugInv.lineState {itf : BitVec 8} {wValue : BitVec 16} (h : UnplugInv s)
    (hopens : Opens (.lineState itf wValue) = true → s.attached = true) :
    UnplugInv (setControlLineState itf wValue s) := by
  simp only [Opens, decide_eq_true_eq] at hopens
  by_cases hitf : itf = bspUsbBridgeCh
  · have hdtr : (setControlLineState itf wValue s).device.dtr bspUsbBridgeCh = wValue.getLsbD 0 := by
      simp [setControlLineState, UsbdDevice.dtr, hitf]
    cases hw : wValue.getLsbD 0 with
    | true =>
      have husb : (setControlLineState itf wValue s).bridge.usb = usbRs485Enable s.bridge.usb := by
        rw [hitf]
        exact setControlLineState_opens hw
      obtain ⟨hm, he, hs⟩ := usbRs485Enable_spec h.handle h.suspended
      exact ⟨by rw [husb, hm], by rw [husb, he, hdtr, hw], by rw [husb, he, hs],
        fun _ => hopens ⟨hitf, hw⟩⟩
    | false =>
      have husb : (setControlLineState itf wValue s).bridge.usb = usbRs485Disable s.bridge.usb := by
        simp only [setControlLineState, lineStateCall, tudCdcLineStateCb, hitf, hw, ne_eq, not_true,
          if_false, Bool.false_eq_true]
      obtain ⟨hm, he, hs⟩ := usbRs485Disable_spec h.handle h.suspended
      refine ⟨by rw [husb, hm], by rw [husb, he, hdtr, hw], by rw [husb, he, hs], fun hd => ?_⟩
      rw [hdtr, hw] at hd
      exact Bool.noConfusion hd
  · have husb : (setControlLineState itf wValue s).bridge.usb = s.bridge.usb := by
      simp only [setControlLineState, lineStateCall, tudCdcLineStateCb, hitf, ne_eq, not_false_iff,
        if_true]
    have hdtr :
        (setControlLineState itf wValue s).device.dtr bspUsbBridgeCh = s.device.dtr bspUsbBridgeCh := by
      simp only [setControlLineState, UsbdDevice.dtr, Function.update_of_ne (Ne.symm hitf)]
    exact h.congr husb hdtr id

/-- An event that does not clear the configuration keeps the line states. -/
theorem setConfiguration_keeps {cfgNum : BitVec 8} (opened ok : Bool)
    (h : Clears s.device (.setConfiguration cfgNum opened ok) = false) :
    (setConfiguration cfgNum opened ok s).device.lineState = s.device.lineState := by
  simp only [Clears, decide_eq_false_iff_not, not_and, not_not] at h
  rw [setConfiguration]
  split
  · rfl
  · have hzero : s.device.cfgNum = 0 := by
      by_contra hne
      exact absurd (h hne) ‹_›
    simp only [hzero, ne_eq, not_true, if_false]
    split
    · rfl
    · cases ok <;> rfl

/-- One that does clears them all. -/
theorem setConfiguration_clears {cfgNum : BitVec 8} (opened ok : Bool)
    (h : Clears s.device (.setConfiguration cfgNum opened ok) = true) :
    (setConfiguration cfgNum opened ok s).device.lineState = fun _ => 0 := by
  simp only [Clears, decide_eq_true_eq] at h
  rw [setConfiguration, if_neg h.2]
  simp only [ne_eq, h.1, not_false_iff, if_true]
  split
  · rfl
  · cases ok <;> rfl

@[simp] theorem setConfiguration_usb {cfgNum : BitVec 8} {opened ok : Bool} :
    (setConfiguration cfgNum opened ok s).bridge.usb = s.bridge.usb := by
  rw [setConfiguration]
  split
  · rfl
  · dsimp only
    split
    · rfl
    · cases ok <;> rfl

@[simp] theorem setConfiguration_attached {cfgNum : BitVec 8} {opened ok : Bool} :
    (setConfiguration cfgNum opened ok s).attached = s.attached := by
  rw [setConfiguration]
  split
  · rfl
  · dsimp only
    split
    · rfl
    · cases ok <;> rfl

/-- A signal changes neither the line states nor the bridge, be it queued or handled. -/
theorem dcdEventHandler_spec (e : BusSignal) :
    (dcdEventHandler e s).bridge.usb = s.bridge.usb ∧
      (dcdEventHandler e s).device.lineState = s.device.lineState ∧
      (dcdEventHandler e s).attached = s.attached := by
  rw [dcdEventHandler]
  split
  · exact ⟨rfl, rfl, rfl⟩
  · exact ⟨rfl, rfl, rfl⟩

theorem handleSignal_spec (e : BusSignal) :
    (handleSignal e s).bridge.usb = s.bridge.usb ∧ (handleSignal e s).device = s.device ∧
      (handleSignal e s).attached = s.attached := by
  unfold handleSignal
  split
  · cases e
    · exact ⟨rfl, rfl, rfl⟩
    · exact ⟨rfl, rfl, rfl⟩
  · exact ⟨rfl, rfl, rfl⟩

/-- After an event that clears the configuration DTR is clear, and the bridge as it was. -/
theorem next_clears {a : UsbAct} (hc : Clears s.device a = true) (hn : usbDevice.next s a = some t) :
    t.device.dtr bspUsbBridgeCh = false ∧ t.bridge.usb = s.bridge.usb := by
  cases a with
  | busReset =>
    cases hn
    exact ⟨dtr_configurationReset _ _, rfl⟩
  | setConfiguration cfgNum opened ok =>
    cases hn
    have hzero := setConfiguration_clears (s := { s with device.connected := true }) opened ok hc
    exact ⟨by rw [UsbdDevice.dtr, hzero]; rfl, setConfiguration_usb⟩
  | _ => cases hc

/-- After the cable was pulled DTR and the bridge are as they were. -/
theorem next_pull (hn : usbDevice.next s .pull = some t) :
    t.attached = false ∧ t.device.dtr bspUsbBridgeCh = s.device.dtr bspUsbBridgeCh ∧
      t.bridge.usb = s.bridge.usb := by
  simp only [usbDevice] at hn
  split at hn
  · obtain ⟨husb, hline, -⟩ := dcdEventHandler_spec (s := s) .suspend
    cases hn
    exact ⟨rfl, by rw [UsbdDevice.dtr, hline, UsbdDevice.dtr], husb⟩
  · cases hn

/-- After a request that sets its DTR the bridge is enabled, and the cable as it was. -/
theorem next_opens {a : UsbAct} (hm : s.bridge.usb.modbusTaskHandle = true)
    (hs : s.bridge.usb.suspended = s.bridge.usb.enabled) (ho : Opens a = true)
    (hn : usbDevice.next s a = some t) : t.attached = s.attached ∧ t.bridge.usb.enabled = true := by
  cases a with
  | lineState itf wValue =>
    simp only [Opens, decide_eq_true_eq] at ho
    obtain ⟨rfl, hw⟩ := ho
    simp only [usbDevice] at hn
    split at hn
    · cases hn
      exact ⟨rfl, by rw [setControlLineState_opens hw]; exact (usbRs485Enable_spec hm hs).2.1⟩
    · cases hn
  | _ => cases ho

/-- An event that neither clears the configuration nor ends the line. -/
theorem UnplugInv.keeps {a : UsbAct} (h : UnplugInv s) (hc : Clears s.device a = false)
    (hp : a ≠ .pull) (ho : Opens a = true → s.attached = true) (hn : usbDevice.next s a = some t) :
    UnplugInv t := by
  cases a with
  | setup =>
    cases hn
    exact h.congr rfl rfl id
  | lineState itf wValue =>
    simp only [usbDevice] at hn
    split at hn
    · cases hn
      exact h.lineState ho
    · cases hn
  | busReset => cases hc
  | setConfiguration cfgNum opened ok =>
    cases hn
    have hline := setConfiguration_keeps (s := { s with device.connected := true }) opened ok hc
    refine h.congr setConfiguration_usb ?_ fun hatt => setConfiguration_attached.trans hatt
    rw [UsbdDevice.dtr, hline, UsbdDevice.dtr]
  | signalIsr e =>
    obtain ⟨husb, hline, hatt⟩ := dcdEventHandler_spec (s := s) e
    cases hn
    exact h.congr husb (by rw [UsbdDevice.dtr, hline, UsbdDevice.dtr]) hatt.trans
  | signal =>
    simp only [usbDevice] at hn
    split at hn
    · cases hn
    · next e signals hsignals =>
      obtain ⟨husb, hdev, hatt⟩ := handleSignal_spec (s := { s with signals := signals }) e
      cases hn
      exact h.congr husb (by rw [hdev]) hatt.trans
  | pull => exact absurd rfl hp
  | plug =>
    simp only [usbDevice] at hn
    split at hn
    · cases hn
    · cases hn
      exact h.congr rfl rfl fun _ => rfl
  | task =>
    obtain ⟨b, hb, rfl⟩ := Option.map_eq_some_iff.mp hn
    obtain ⟨hm, he, hs⟩ := bridgeTask_usb hb
    exact ⟨hm.trans h.handle, he.trans h.enabled, hs.trans (h.suspended.trans he.symm), h.attached⟩

end

/-- In a run without orders of the shell, in every state the bridge is enabled only under DTR of
its interface and with the cable in, and Modbus suspended just then, if and only if the
configuration is cleared and the cable pulled only while that DTR is clear, and no request sets
it while the cable is out. -/
theorem unplug_iff (s t : UsbSys) (as : List UsbAct) (hi : usbDevice.init s)
    (hr : usbDevice.Run Lts.any s as t) :
    usbDevice.Always UnderDtr s as t ↔ usbDevice.Run ClearsClosed s as t := by
  have hinit : UnplugInv s := by
    subst hi
    exact ⟨rfl, rfl, rfl, fun h => absurd h Bool.false_ne_true⟩
  refine hr.always_iff hinit (fun _ h => h.underDtr) (fun s a t h _ hok hn => ?_)
    fun s a t h _ hbad hn hu => ?_
  · cases hc : Clears s.device a with
    | true =>
      obtain ⟨hdtr, husb⟩ := next_clears hc hn
      have he : s.bridge.usb.enabled = false := h.enabled.trans (hok.1 (.inl hc))
      exact ⟨by rw [husb, h.handle], by rw [husb, hdtr, he], by rw [husb, h.suspended],
        fun hd => absurd (hd.symm.trans hdtr) Bool.true_eq_false.mp⟩
    | false =>
      by_cases hp : a = .pull
      · subst hp
        obtain ⟨-, hdtr, husb⟩ := next_pull hn
        have hclosed := hdtr.trans (hok.1 (.inr rfl))
        exact ⟨by rw [husb, h.handle], by rw [husb, hdtr, h.enabled], by rw [husb, h.suspended],
          fun hd => absurd (hd.symm.trans hclosed) Bool.true_eq_false.mp⟩
      · exact h.keeps hc hp hok.2 hn
  · rcases not_and_or.mp hbad with hends | hopens
    · obtain ⟨hends, hopen⟩ := Classical.not_imp.mp hends
      have he : s.bridge.usb.enabled = true := h.enabled.trans (by simpa using hopen)
      rcases hends with hc | rfl
      · obtain ⟨hdtr, husb⟩ := next_clears hc hn
        have hset := (hu.1 (by rw [husb, he])).2
        rw [hdtr] at hset
        exact Bool.noConfusion hset
      · obtain ⟨hout, -, husb⟩ := next_pull hn
        have hin := (hu.1 (by rw [husb, he])).1
        rw [hout] at hin
        exact Bool.noConfusion hin
    · obtain ⟨ho, hout⟩ := Classical.not_imp.mp hopens
      obtain ⟨hatt, henabled⟩ := next_opens h.handle h.suspended ho hn
      exact hout (hatt.symm.trans (hu.1 henabled).1)

/-- The host configures the device, and opens and closes the bridge before the cable is pulled;
plugged in again, it resets the bus. -/
def openClose : List UsbAct :=
  [.plug, .setConfiguration 1 true true, .lineState 1 3, .setup, .lineState 1 0, .pull, .signal, .plug,
    .busReset]

theorem unplug_iff_openClose :
    usbDevice.Always UnderDtr .init openClose
      (usbDevice.exec (fun s a => decide (ClearsClosed s a)) .init openClose).1 := by
  have hr := Lts.Run.of_decide usbDevice ClearsClosed .init openClose (by decide)
  exact (unplug_iff _ _ _ rfl (hr.mono fun _ _ _ => trivial)).mpr hr

/-- The host resets the bus with the bridge open: it stays enabled. -/
theorem not_unplug : ¬ ∀ s : UsbSys, usbDevice.Reach Lts.any s →
    s.bridge.usb.enabled = true → s.device.dtr bspUsbBridgeCh = true := by
  intro h
  have hr := Lts.Run.any_of_exec usbDevice .init
    [.plug, .setConfiguration 1 true true, .lineState 1 3, .busReset] (by decide)
  exact absurd (h _ ⟨_, _, rfl, hr⟩ (by decide)) (by decide)

end Rs485.UsbRs485
