import Rs485.Impl.Modbus.Timed
import Rs485.Proof.Modbus.Assertions
import Rs485.Proof.Modbus.Framing

/-!
# The frame timer is not restarted

`xMBRTUReceiveFSM` enables the timer at every byte, and the port only starts it, so
that it runs on from the first byte of a frame: `Clock k` says that `k` ticks were
counted since the timer stood at zero, whatever bytes came in between. T3.5 expires
a period later, in the middle of a longer frame (`frame_iff`).
-/

namespace Rs485.Modbus

open Rs485.Framework

/-- The receiver takes bytes, and T3.5 may expire. -/
structure RxReady (s : Slave) : Prop where
  ucPort : s.modbus.ucPort = bspRS485
  snd : s.modbus.sndState = .txIdle
  room : s.board.rxQueue.length < 256
  timer : s.board.htim1Busy = true → s.modbus.rcvState ≠ .rxIdle

/-- The `k` ticks since the timer stood at zero: the counter shows them while they are fewer than
a period, and then T3.5 has expired. -/
structure Clock (period k : Nat) (s : Timed) : Prop where
  ready : RxReady s.slave
  below : k < period → s.slave.board.htim1Busy = true ∧ s.cnt = k ∧ s.expiries = []
  after : period ≤ k → s.expiries ≠ []

/-- The ticks from the byte before `bs` to the last byte. -/
def elapsed : List (Nat × UCHAR) → Nat
  | [] => 0
  | (gap, _) :: bs => gap + elapsed bs

theorem elapsed_eq_zero (bs : List (Nat × UCHAR)) : elapsed bs = 0 ↔ ∀ g ∈ bs, g.1 = 0 := by
  induction bs with
  | nil => exact iff_of_true rfl nofun
  | cons g bs ih =>
    rw [List.forall_mem_cons, ← ih]
    exact Nat.add_eq_zero_iff

section RxReady

variable {s : Slave} (h : RxReady s)
include h

/-- T3.5 expires without a failed assertion. -/
theorem RxReady.t35 (hb : s.board.htim1Busy = true) : ∃ t, xMBRTUTimerT35Expired s = .ok t ∧ RxReady t := by
  have hstop (m : EModbus) (hm : m.ucPort = s.modbus.ucPort) (hs : m.sndState = s.modbus.sndState) :
      RxReady (expired m s) := by
    refine ⟨hm.trans h.ucPort, hs.trans h.snd, by rw [expired_rxQueue]; exact h.room, fun hb => ?_⟩
    rw [expired_htim1Busy (hm.trans h.ucPort)] at hb
    cases hb
  cases hr : s.modbus.rcvState with
  | rxInit => exact ⟨_, t35Expired_init hr, hstop _ rfl rfl⟩
  | rxIdle => exact absurd hr (h.timer hb)
  | rxRcv => exact ⟨_, t35Expired_rcv hr, hstop _ rfl rfl⟩
  | rxError => exact ⟨_, t35Expired_error hr, hstop _ rfl rfl⟩

/-- A byte is taken, and then the timer runs. -/
theorem RxReady.arrive (b : UCHAR) :
    ∃ t, Multi.arrive b s = .ok t ∧ RxReady t ∧ t.board.htim1Busy = true := by
  let t := rxCase s.modbus.rcvState b s
  have hport : t.modbus.ucPort = bspRS485 := (rxCase_ucPort _ _ _).trans h.ucPort
  have hne : t.modbus.rcvState ≠ .rxIdle := by
    intro hidle
    have hs := rxCase_idle hidle
    simp only [t, hs] at hidle
    cases hidle
  have hsnd : t.modbus.sndState = .txIdle := (rxCase_sndState _ _ _).trans h.snd
  have hroom : t.board.rxQueue.length < 256 := by
    rw [rxCase_board]
    exact h.room
  rw [arrive_eq b h.room, if_pos h.snd]
  refine ⟨_, rfl, ?_⟩
  rw [vMBPortTimersEnable, if_pos hport]
  exact ⟨⟨hport, hsnd, hroom, fun _ => hne⟩, rfl⟩

end RxReady

section Clock

variable {period k : Nat} {s : Timed}

/-- What a tick does: it counts, or T3.5 expires, or the timer stands. -/
theorem RxReady.tick (h : RxReady s.slave) : ∃ t, s.tick period = .ok t ∧ RxReady t.slave ∧
    ((s.slave.board.htim1Busy = true ∧ s.cnt + 1 < period ∧ t = { s with now := s.now + 1, cnt := s.cnt + 1 }) ∨
      (period ≤ s.cnt + 1 ∧ t.expiries ≠ []) ∨
      (s.slave.board.htim1Busy = false ∧ t = { s with now := s.now + 1 })) := by
  by_cases hb : s.slave.board.htim1Busy = true
  · by_cases hlt : s.cnt + 1 < period
    · refine ⟨{ s with now := s.now + 1, cnt := s.cnt + 1 }, ?_, h, Or.inl ⟨hb, hlt, rfl⟩⟩
      rw [Timed.tick, if_pos hb, if_pos hlt]
    · obtain ⟨slave, ht35, hready⟩ := h.t35 hb
      refine ⟨{ slave := slave, cnt := 0, now := s.now + 1, expiries := (s.now + 1) :: s.expiries }, ?_, hready,
        Or.inr (Or.inl ⟨Nat.le_of_not_lt hlt, List.cons_ne_nil _ _⟩)⟩
      rw [Timed.tick, if_pos hb, if_neg hlt, ht35]
      rfl
  · refine ⟨{ s with now := s.now + 1 }, ?_, h, Or.inr (Or.inr ⟨Bool.eq_false_iff.mpr hb, rfl⟩)⟩
    rw [Timed.tick, if_neg hb]

theorem Clock.tick (h : Clock period k s) : ∃ t, s.tick period = .ok t ∧ Clock period (k + 1) t := by
  obtain ⟨t, ht, hready, ⟨hb, hlt, rfl⟩ | ⟨hge, hne⟩ | ⟨hb, rfl⟩⟩ := h.ready.tick
  · refine ⟨_, ht, hready, fun hk => ?_, fun hk => ?_⟩
    · obtain ⟨-, hcnt, hnone⟩ := h.below (by omega)
      exact ⟨hb, congrArg (· + 1) hcnt, hnone⟩
    · by_cases hk' : k < period
      · have hcnt := (h.below hk').2.1
        omega
      · exact h.after (by omega)
  · refine ⟨_, ht, hready, fun hk => ?_, fun _ => hne⟩
    have hcnt := (h.below (by omega)).2.1
    omega
  · have hk' : period ≤ k := by
      by_contra hk
      cases hb.symm.trans (h.below (by omega)).1
    exact ⟨_, ht, hready, fun hk => by omega, fun _ => h.after hk'⟩

theorem Clock.ticks (h : Clock period k s) (n : Nat) :
    ∃ t, Timed.ticks period n s = .ok t ∧ Clock period (k + n) t := by
  induction n generalizing k s with
  | zero => exact ⟨s, rfl, h⟩
  | succ n ih =>
    obtain ⟨t, ht, hc⟩ := h.tick
    obtain ⟨u, hu, hc⟩ := ih hc
    refine ⟨u, ?_, by rwa [Nat.add_right_comm, Nat.add_assoc] at hc⟩
    rw [Timed.ticks, ht]
    exact hu

/-- A byte does not put the timer back. -/
theorem Clock.byte (h : Clock period k s) (b : UCHAR) :
    ∃ t, s.byte b = .ok t ∧ Clock period k t := by
  obtain ⟨slave, harrive, hready, hb⟩ := h.ready.arrive b
  refine ⟨{ s with slave := slave }, by rw [Timed.byte, harrive]; rfl, hready, fun hk => ?_, h.after⟩
  exact ⟨hb, (h.below hk).2⟩

theorem Clock.bytes (h : Clock period k s) (bs : List (Nat × UCHAR)) :
    ∃ t, Timed.bytes period bs s = .ok t ∧ Clock period (k + elapsed bs) t := by
  induction bs generalizing k s with
  | nil => exact ⟨s, rfl, h⟩
  | cons g bs ih =>
    obtain ⟨gap, b⟩ := g
    obtain ⟨t, ht, hc⟩ := h.ticks gap
    obtain ⟨u, hu, hc⟩ := hc.byte b
    obtain ⟨v, hv, hc⟩ := ih hc
    refine ⟨v, ?_, by rwa [Nat.add_assoc] at hc⟩
    rw [Timed.bytes, ht]
    show (do let s ← Timed.byte b t; Timed.bytes period bs s) = _
    rw [hu]
    exact hv

/-- The first byte of a frame starts the timer. -/
theorem Clock.first (h : RxReady s.slave) (hcnt : s.cnt < period) (hnone : s.expiries = []) (b : UCHAR) :
    ∃ t, s.byte b = .ok t ∧ Clock period s.cnt t := by
  obtain ⟨slave, harrive, hready, hb⟩ := h.arrive b
  exact ⟨{ s with slave := slave }, by rw [Timed.byte, harrive]; rfl, hready, fun _ => ⟨hb, rfl, hnone⟩,
    fun hle => by omega⟩

/-- T3.5 has expired if and only if a period has gone by. -/
theorem Clock.expiries_eq_nil (h : Clock period k s) : s.expiries = [] ↔ k < period := by
  constructor
  · intro hnone
    by_contra hk
    exact h.after (by omega) hnone
  · exact fun hk => (h.below hk).2.2

/-- The ticks from the first byte to the last but one of the period after the last byte. -/
theorem Clock.frame (h : RxReady s.slave) (hcnt : s.cnt < period) (hnone : s.expiries = []) (b : UCHAR)
    (bs : List (Nat × UCHAR)) :
    ∃ t, s.frame period b bs = .ok t ∧ Clock period (s.cnt + elapsed bs + (period - 1)) t := by
  obtain ⟨t, ht, hc⟩ := Clock.first h hcnt hnone b
  obtain ⟨u, hu, hc⟩ := hc.bytes bs
  obtain ⟨v, hv, hc⟩ := hc.ticks (period - 1)
  refine ⟨v, ?_, hc⟩
  rw [Timed.frame, ht]
  show (do let s ← Timed.bytes period bs t; Timed.ticks period (period - 1) s) = _
  rw [hu]
  exact hv

end Clock

/-- From an idle receiver with its timer stopped, T3.5 does not expire before a period after the
last byte if and only if the counter stood at zero and no tick came between the first byte and
the last. -/
theorem frame_iff (period : Nat) (s : Timed) (b : UCHAR) (bs : List (Nat × UCHAR))
    (hport : s.slave.modbus.ucPort = bspRS485) (hsnd : s.slave.modbus.sndState = .txIdle)
    (hroom : s.slave.board.rxQueue.length < 256) (hstop : s.slave.board.htim1Busy = false)
    (hcnt : s.cnt < period) (hnone : s.expiries = []) :
    ∃ t, s.frame period b bs = .ok t ∧ (t.expiries = [] ↔ s.cnt = 0 ∧ ∀ g ∈ bs, g.1 = 0) := by
  have hready : RxReady s.slave := ⟨hport, hsnd, hroom, fun hb => by rw [hstop] at hb; cases hb⟩
  obtain ⟨t, ht, hc⟩ := Clock.frame hready hcnt hnone b bs
  refine ⟨t, ht, hc.expiries_eq_nil.trans ?_⟩
  rw [← elapsed_eq_zero]
  omega

/-- The slave with an idle line, its timer at zero. -/
def idleTimed : Timed where
  slave := { idleSlave with modbus.ucPort := bspRS485 }
  cnt := 0
  now := 0
  expiries := []

/-- Three bytes, the second 600 ticks behind the first, the third 600 behind the second. -/
theorem frame_iff_three :
    ∃ t, idleTimed.frame 1000 0x01 [(600, 0x03), (600, 0x00)] = .ok t ∧
      (t.expiries = [] ↔ idleTimed.cnt = 0 ∧ ∀ g ∈ [((600 : Nat), (0x03 : UCHAR)), (600, 0x00)], g.1 = 0) :=
  frame_iff 1000 idleTimed 0x01 [(600, 0x03), (600, 0x00)] rfl rfl (by decide) rfl (by decide) rfl

/-- T3.5 expires 1000 ticks behind the first of these bytes, before the third has come. -/
theorem not_frame_unsplit : ¬ ∀ (period : Nat) (s : Timed) (b : UCHAR) (bs : List (Nat × UCHAR)),
    s.slave.modbus.ucPort = bspRS485 → s.slave.modbus.sndState = .txIdle → s.slave.modbus.rcvState = .rxIdle →
      s.slave.board.rxQueue = [] → s.slave.board.htim1Busy = false → s.cnt < period → s.expiries = [] →
      (∀ g ∈ bs, g.1 < period) → ∃ t, s.frame period b bs = .ok t ∧ t.expiries = [] := by
  intro h
  obtain ⟨t, ht, hnone⟩ := h 1000 idleTimed 0x01 [(600, 0x03), (600, 0x00)] rfl rfl rfl rfl rfl (by decide) rfl
    (by decide)
  have hready : RxReady idleTimed.slave := ⟨rfl, rfl, by decide, nofun⟩
  have hcnt : idleTimed.cnt < 1000 := by decide
  obtain ⟨u, hu, hc⟩ := Clock.frame hready hcnt rfl 0x01 [(600, 0x03), (600, 0x00)]
  cases ht.symm.trans hu
  exact hc.after (by decide) hnone

end Rs485.Modbus
