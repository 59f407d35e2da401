import Rs485.Impl.UsbRs485

/-!
# The bridge task and the Modbus task exclude each other

A notification that `bridge_task` never waited for lets it through
`ulTaskNotifyTake` when the bridge is disabled later. The task keeps out of the
transfers while Modbus runs as long as no notification is pending when the
bridge is disabled (`bridge_excluded`), and from any other call that disables
it, it can get there (`disable_lets_through`).
-/

namespace Rs485.UsbRs485

open Rs485.Framework

/-- The bridge may transfer: it is enabled, or the Modbus task is suspended. -/
def Usb.MayTransfer (u : Usb) : Prop := u.enabled = true ∨ u.suspended = true

instance (u : Usb) : Decidable u.MayTransfer := inferInstanceAs (Decidable (_ ∨ _))

/-- The step from `s` to `t` passes on to the transfers. -/
def Passes (s t : Bridge) : Prop := s.pc ≠ .transfer ∧ t.pc = .transfer

/-- A call that disables the bridge comes when no notification is pending. -/
def NonePending (s : Bridge) (a : BridgeAct) : Prop :=
  a = .disable → s.usb.enabled = true → s.usb.notified = 0

instance (s : Bridge) (a : BridgeAct) : Decidable (NonePending s a) :=
  inferInstanceAs (Decidable (_ → _))

/-- The bridge is enabled just while the Modbus task is suspended, and a
notification is pending only then. -/
structure BridgeInv (s : Bridge) : Prop where
  handles : s.usb.bridgeTaskHandle = true ∧ s.usb.modbusTaskHandle = true
  suspended : s.usb.suspended = s.usb.enabled
  notified : s.usb.enabled = false → s.usb.notified = 0

section

variable {s t : Bridge}

theorem BridgeInv.enable (h : BridgeInv s) :
    BridgeInv { s with usb := usbRs485Enable s.usb } := by
  obtain ⟨⟨hb, hm⟩, hs, hn⟩ := h
  by_cases he : s.usb.enabled = true
  · rw [usbRs485Enable, if_pos he]
    exact ⟨⟨hb, hm⟩, hs, hn⟩
  · rw [usbRs485Enable, if_neg he, suspendModbus, if_pos hm, notifyBridge, if_pos hb]
    exact ⟨⟨hb, hm⟩, rfl, nofun⟩

theorem BridgeInv.disable (h : BridgeInv s) (hp : NonePending s .disable) :
    BridgeInv { s with usb := usbRs485Disable s.usb } := by
  obtain ⟨⟨hb, hm⟩, hs, hn⟩ := h
  by_cases he : s.usb.enabled = true
  · rw [usbRs485Disable, if_pos he, resumeModbus, if_pos hm]
    exact ⟨⟨hb, hm⟩, rfl, fun _ => hp rfl he⟩
  · rw [usbRs485Disable, if_neg he]
    exact ⟨⟨hb, hm⟩, hs, hn⟩

theorem BridgeInv.task (h : BridgeInv s) {tudMounted : Bool} (ht : bridgeTask tudMounted s = some t) :
    BridgeInv t := by
  obtain ⟨hh, hs, hn⟩ := h
  rw [bridgeTask] at ht
  split at ht
  case h_3 =>
    split at ht
    · cases ht
    · cases ht
      exact ⟨hh, hs, fun _ => rfl⟩
  all_goals
    cases ht
    exact ⟨hh, hs, hn⟩

theorem BridgeInv.reach (h : bridge.Reach NonePending s) : BridgeInv s := by
  refine h.inv (fun s hs => ?_) fun s a t hI hp hn => ?_
  · subst hs
    exact ⟨⟨rfl, rfl⟩, rfl, fun _ => rfl⟩
  · cases a with
    | enable => cases hn; exact hI.enable
    | disable => cases hn; exact hI.disable hp
    | task tudMounted => exact hI.task hn

/-- The step on to the transfers is the check of the flag, or the end of the wait. -/
theorem passes_cases {a : BridgeAct} (hn : bridge.next s a = some t) (hp : Passes s t) :
    (s.pc = .check ∧ s.usb.enabled = true) ∨ (s.pc = .take ∧ s.usb.notified ≠ 0) := by
  obtain ⟨hs, ht⟩ := hp
  cases a with
  | enable => cases hn; exact absurd ht hs
  | disable => cases hn; exact absurd ht hs
  | task tudMounted =>
    change bridgeTask tudMounted s = some t at hn
    cases hpc : s.pc <;> simp only [bridgeTask, hpc] at hn
    case mounted => cases hn; cases tudMounted <;> cases ht
    case check =>
      cases hn
      by_cases he : s.usb.enabled = true
      · exact Or.inl ⟨rfl, he⟩
      · simp [he] at ht
    case take =>
      split at hn
      · cases hn
      · exact Or.inr ⟨rfl, ‹_›⟩
    case transfer => exact absurd hpc hs
    case delay => cases hn; cases ht

end

/-- In every run in which the bridge is disabled only while no notification is pending,
control does not pass on to the transfers while the bridge is disabled and the
Modbus task runs. -/
theorem bridge_excluded (s t : Bridge) (a : BridgeAct) (hr : bridge.Reach NonePending s)
    (hn : bridge.next s a = some t) (hp : Passes s t) : s.usb.MayTransfer := by
  have hI := BridgeInv.reach hr
  rcases passes_cases hn hp with ⟨-, he⟩ | ⟨-, hnot⟩
  · exact Or.inl he
  · cases he : s.usb.enabled with
    | true => exact Or.inl he
    | false => exact absurd (hI.notified he) hnot

/-! ## Disabling with a notification pending -/

/-- Actions that pass on to the transfers from `s` while the bridge is disabled and Modbus runs. -/
def Violates (s : Bridge) : Prop :=
  ∃ as t u a, bridge.Run Lts.any s as t ∧ bridge.next t a = some u ∧ Passes t u ∧
    ¬ t.usb.MayTransfer

theorem Violates.step {s t : Bridge} {a : BridgeAct} (hn : bridge.next s a = some t)
    (h : Violates t) : Violates s := by
  obtain ⟨as, t', u, a', hr, hrest⟩ := h
  exact ⟨a :: as, t', u, a', Lts.Run.cons trivial hn hr, hrest⟩

/-- From anywhere in its loop the task takes a notification that is pending. -/
theorem violates_of_notified {u : Usb} (hu : ¬ u.MayTransfer) (hn : u.notified ≠ 0)
    (pc : BridgePc) : Violates ⟨u, pc⟩ := by
  have he : u.enabled ≠ true := fun h => hu (Or.inl h)
  have htake : Violates ⟨u, .take⟩ :=
    ⟨[], _, _, .task true, .nil, if_neg hn, ⟨nofun, rfl⟩, hu⟩
  have hcheck : Violates ⟨u, .check⟩ := htake.step (a := .task true) (by simp [bridge, bridgeTask, he])
  have hmounted : Violates ⟨u, .mounted⟩ := hcheck.step (a := .task true) rfl
  have hdelay : Violates ⟨u, .delay⟩ := hmounted.step (a := .task true) rfl
  cases pc with
  | mounted => exact hmounted
  | check => exact hcheck
  | take => exact htake
  | transfer => exact hdelay.step (a := .task true) rfl
  | delay => exact hdelay

/-- From any other call that disables the bridge the task can pass on to the
transfers while the Modbus task runs. -/
theorem disable_lets_through {s : Bridge} (hr : bridge.Reach NonePending s)
    (hbad : ¬ NonePending s .disable) : Violates { s with usb := usbRs485Disable s.usb } := by
  have hI := BridgeInv.reach hr
  obtain ⟨he, hn⟩ : s.usb.enabled = true ∧ s.usb.notified ≠ 0 := by
    simpa [NonePending] using hbad
  rw [usbRs485Disable, if_pos he, resumeModbus, if_pos hI.handles.2]
  refine violates_of_notified (u := { s.usb with enabled := false, suspended := false }) ?_ hn s.pc
  rintro (h | h) <;> cases h

/-- The task waits, is let through and serves a round; the bridge is disabled with no notification
pending, and enabled again. -/
def enabledAgain : List BridgeAct :=
  [.task true, .task true, .enable, .task true, .task true, .task true, .disable, .enable, .task true]

/-- The transfer that the task passes on to then is allowed. -/
theorem bridge_excluded_enabled : Usb.MayTransfer ⟨true, true, true, true, 1⟩ := by
  have hr := Lts.Run.of_decide bridge NonePending ⟨.init, .mounted⟩ enabledAgain (by decide)
  exact bridge_excluded ⟨⟨true, true, true, true, 1⟩, .check⟩ ⟨⟨true, true, true, true, 1⟩, .transfer⟩
    (.task true) ⟨_, _, rfl, hr⟩ rfl ⟨nofun, rfl⟩

/-- The bridge was enabled, served, and was disabled; the notification of the enabling
takes the task on to the transfers while Modbus runs. -/
theorem not_bridge_excluded : ¬ ∀ (s t : Bridge) (a : BridgeAct), bridge.Reach Lts.any s →
    bridge.next s a = some t → Passes s t → s.usb.MayTransfer := by
  intro h
  have hr := Lts.Run.any_of_exec bridge ⟨.init, .mounted⟩
    [.enable, .task true, .task true, .task true, .task true, .disable, .task true, .task true]
    (by decide)
  have hbad := h _ ⟨⟨true, true, false, false, 0⟩, .transfer⟩ (.task true)
    ⟨_, _, rfl, hr⟩ rfl ⟨by decide, rfl⟩
  exact absurd hbad (by decide)

end Rs485.UsbRs485
