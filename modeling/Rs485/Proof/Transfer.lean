import Rs485.Impl.Transfer
import Rs485.Proof.Uart

/-!
# The bridge towards USB

`bridge_task` offers the USB FIFO what it took out of the receive queue and does
not look at how much the FIFO accepted, so that a byte that did not fit is lost
for good: in a run nothing is lost if and only if the FIFO had room for all
bytes each time (`accepted_all_iff`).
-/

namespace Rs485.Transfer

open Rs485.Framework Rs485.Uart

/-- The bytes taken out of the receive queue that were not yet offered. -/
def Bridge.pending (s : Bridge) : List Byte :=
  match s.pc with
  | .transmit buf => buf
  | _ => s.port.inCall

/-- The interface is connected (and so ready) when the bytes are offered. -/
def Connected (_ : Bridge) : BridgeAct → Prop
  | .transmit bspUsbConnected tudCdcNReady _ => bspUsbConnected = true ∧ tudCdcNReady = true
  | _ => True

/-- The FIFO has room for all bytes that are offered. -/
def HasRoom (s : Bridge) : BridgeAct → Prop
  | .transmit _ _ free => s.pending.length ≤ free
  | _ => True

instance (s : Bridge) : (a : BridgeAct) → Decidable (Connected s a)
  | .rxCb _ => .isTrue trivial
  | .tick => .isTrue trivial
  | .task => .isTrue trivial
  | .transmit _ _ _ => inferInstanceAs (Decidable (_ ∧ _))

/-- A call of `bsp_uart_receive` is in progress just while the task is in it. -/
def InReceive (s : Bridge) : Prop := s.port.receive = none ↔ s.pc ≠ .receive

/-- What a step does to the bytes: it takes some out of the queue, or it ends the offer of
those that are pending. -/
inductive Moves (s t : Bridge) : BridgeAct → Prop
  | take {a : BridgeAct} (moved : List Byte) (room : HasRoom s a)
    (taken : t.port.taken = s.port.taken ++ moved) (pending : t.pending = s.pending ++ moved)
    (accepted : t.accepted = s.accepted) : Moves s t a
  | offer {connected ready : Bool} {free : Nat} (taken : t.port.taken = s.port.taken)
    (pending : t.pending = []) (accepted : t.accepted = s.accepted ++ s.pending.take free) :
    Moves s t (.transmit connected ready free)

section

variable {s t : Bridge}

/-- `bsp_uart_receive` runs on. -/
theorem Moves.receive {c : Receive} (hpc : s.pc = .receive) (hc : s.port.receive = some c) :
    InReceive (receiveStep s c) ∧ Moves s (receiveStep s c) .task := by
  have hpending : s.pending = c.buff := by simp [Bridge.pending, hpc, Port.inCall, hc]
  obtain ⟨moved, q, c', -, hb, hr | hr⟩ := task_cases s.port c
  · have hstep : receiveStep s c =
        { s with
          port := ({ s.port with rxQueue := q }.ret c').1
          pc := if c'.buff.length > 0 then .transmit c'.buff else .available } := by
      simp only [receiveStep, hr, ret_snd]
    have hp : (receiveStep s c).pending = c'.buff := by
      rw [hstep]
      by_cases h : c'.buff = [] <;> simp [Bridge.pending, Port.inCall, h, List.length_pos_iff]
    refine ⟨?_, .take moved trivial ?_ (by rw [hp, hpending, hb]) (by rw [hstep])⟩
    · rw [hstep, InReceive]
      refine iff_of_true rfl ?_
      dsimp only
      split <;> simp
    · simp [hstep, Port.taken, Port.inCall, hc, hb]
  · have hstep : receiveStep s c = { s with port := ({ s.port with rxQueue := q }.goOn c').1 } := by
      simp only [receiveStep, hr, goOn_snd]
    refine ⟨?_, .take moved trivial ?_ ?_ (by rw [hstep])⟩
    · simp [hstep, InReceive, hpc]
    · simp [hstep, Port.taken, Port.inCall, hc, hb]
    · simp [hstep, Bridge.pending, hpc, Port.inCall, hc, hb]

/-- Every step. -/
theorem Moves.of_next {a : BridgeAct} (hs : InReceive s) (hc : Connected s a)
    (hn : transfer.next s a = some t) : InReceive t ∧ Moves s t a := by
  obtain ⟨port, pc, accepted⟩ := s
  cases a with
  | rxCb buf =>
    cases hn
    exact ⟨hs, .take [] trivial (by simp [Port.taken, Port.inCall])
      (by cases pc <;> simp [Bridge.pending, Port.inCall]) rfl⟩
  | tick =>
    cases hn
    exact ⟨hs, .take [] trivial (by simp [Port.taken, Port.inCall])
      (by cases pc <;> simp [Bridge.pending, Port.inCall]) rfl⟩
  | task =>
    cases pc with
    | available =>
      have hidle : port.receive = none := hs.mpr (by simp)
      simp only [transfer] at hn
      split at hn
      · cases hn
        refine ⟨by simp [InReceive, bspUartReceive], .take [] trivial ?_ ?_ rfl⟩
        · simp [Port.taken, Port.inCall, bspUartReceive, hidle]
        · simp [Bridge.pending, Port.inCall, bspUartReceive, hidle]
      · cases hn
        exact ⟨hs, .take [] trivial (by simp) (by simp) rfl⟩
    | receive =>
      obtain ⟨c, hcall, rfl⟩ := Option.map_eq_some_iff.mp hn
      exact Moves.receive rfl hcall
    | transmit buf => cases hn
  | transmit connected ready free =>
    cases pc with
    | available => cases hn
    | receive => cases hn
    | transmit buf =>
      have hidle : port.receive = none := hs.mpr (by simp)
      obtain ⟨rfl, rfl⟩ := hc
      cases hn
      refine ⟨by simp [InReceive, hidle], .offer rfl ?_ ?_⟩
      · simp [Bridge.pending, Port.inCall, hidle]
      · simp [Bridge.pending, bspUsbTransmit, tudCdcNWrite]

/-- Nothing is lost: what was taken was accepted or is still to be offered. -/
def NoneLost (s : Bridge) : Prop := s.accepted ++ s.pending = s.port.taken

instance (s : Bridge) : Decidable (NoneLost s) := inferInstanceAs (Decidable (_ = _))

/-- Bytes are missing. -/
def Lost (s : Bridge) : Prop := s.accepted.length + s.pending.length < s.port.taken.length

theorem NoneLost.step {a : BridgeAct} (h : NoneLost s) (hm : Moves s t a) (hroom : HasRoom s a) :
    NoneLost t := by
  rw [NoneLost] at h ⊢
  cases hm with
  | take moved _ htaken hpending haccepted =>
    rw [htaken, hpending, haccepted, ← h, List.append_assoc]
  | offer htaken hpending haccepted =>
    rw [htaken, hpending, haccepted, List.take_of_length_le hroom, List.append_nil, h]

theorem NoneLost.lost {a : BridgeAct} (h : NoneLost s) (hm : Moves s t a) (hroom : ¬ HasRoom s a) :
    Lost t := by
  cases hm with
  | take moved room => exact absurd room hroom
  | @offer _ _ free htaken hpending haccepted =>
    have hlt : free < s.pending.length := Nat.lt_of_not_le hroom
    rw [Lost, htaken, hpending, haccepted, ← h]
    simp only [List.length_append, List.length_take, List.length_nil]
    omega

theorem Lost.step {a : BridgeAct} (h : Lost s) (hm : Moves s t a) : Lost t := by
  rw [Lost] at h ⊢
  cases hm with
  | take moved _ htaken hpending haccepted =>
    simp only [htaken, hpending, haccepted, List.length_append]
    omega
  | @offer _ _ free htaken hpending haccepted =>
    simp only [htaken, hpending, haccepted, List.length_append, List.length_take, List.length_nil]
    omega

end

/-- In every run with the interface connected, the bytes accepted by the USB FIFO, with those
still to be offered, are the bytes taken out of the receive queue if and only if each time
the FIFO had room for all bytes offered. -/
theorem accepted_all_iff (s t : Bridge) (as : List BridgeAct) (hi : transfer.init s)
    (hr : transfer.Run Connected s as t) :
    t.accepted ++ t.pending = t.port.taken ↔ transfer.Run HasRoom s as t := by
  have hinit : InReceive s ∧ NoneLost s := by
    obtain ⟨tick, rfl⟩ := hi
    exact ⟨by simp [InReceive, Port.init], rfl⟩
  refine hr.kept_iff (B := Lost) hinit.1 hinit.2 (fun s a t hs hc hn => (Moves.of_next hs hc hn).1)
    (fun s a t hs hnone hc hroom hn => ?_) (fun s a t hs hnone hc hroom hn => ?_)
    (fun s a t hs hlost hc hn => ?_) (fun _ hnone => hnone) fun _ hlost h => ?_
  · exact hnone.step (Moves.of_next hs hc hn).2 hroom
  · exact hnone.lost (Moves.of_next hs hc hn).2 hroom
  · exact hlost.step (Moves.of_next hs hc hn).2
  · have hlen := congrArg List.length h
    rw [List.length_append] at hlen
    rw [Lost, hlen] at hlost
    exact Nat.lt_irrefl _ hlost

/-- Two bytes arrive and are offered to a FIFO with room for 64. -/
def twoBytes (free : Nat) : List BridgeAct :=
  [.rxCb [7], .rxCb [8], .task, .task, .task, .task, .task, .transmit true true free]

/-- The bridge once they were accepted. -/
def twoBytesAccepted : Bridge := ⟨⟨[], 0, none, [7, 8], [8, 7]⟩, .available, [8, 7]⟩

theorem accepted_all_iff_twoBytes :
    ([8, 7] : List Byte) ++ [] = [8, 7] ↔
      transfer.Run HasRoom ⟨.init 0, .available, []⟩ (twoBytes 64) twoBytesAccepted := by
  have hr : transfer.Run _ _ _ twoBytesAccepted := Lts.Run.of_decide transfer
    Connected ⟨.init 0, .available, []⟩ (twoBytes 64) (by decide)
  exact accepted_all_iff _ _ _ ⟨0, rfl⟩ hr

/-- The FIFO is full but for one byte: the other one is lost. -/
theorem not_accepted_all :
    ¬ ∀ (s t : Bridge) (as : List BridgeAct), transfer.init s → transfer.Run Connected s as t →
      t.pc = .available → t.accepted = t.port.taken := by
  intro h
  have hr := Lts.Run.of_decide transfer Connected ⟨.init 0, .available, []⟩
    (twoBytes 1) (by decide)
  exact absurd (h _ _ _ ⟨0, rfl⟩ hr (by decide)) (by decide)

end Rs485.Transfer
