import Rs485.Impl.RtosUart
import Rs485.Proof.RtosQueue

/-!
# The list for the ring

What is proved of a port with a list for its receive queue is so of the port with the
kernel's queue: a run of the latter is a run of the former, with the same bytes delivered
and returned (`ring_refines_list`).
-/

namespace Rs485.RtosQueue

open Rs485.Framework

variable {q : Queue} {r : Nat} {xs : List Byte} {s u : RingPort} {p : Uart.Port}

/-- The queue has the bytes `xs`, one an item. -/
def HasBytes (q : Queue) (xs : List Byte) : Prop := ∃ r, Holds Uart.rxQueueLength 1 q r (xs.map fun b => [b])

theorem HasBytes.send (h : HasBytes q xs) (b : Byte) :
    HasBytes (xQueueGenericSend q (fun _ => b) .sendToFront).2 (Uart.xQueueSendToFrontFromISR xs b) := by
  obtain ⟨r, h⟩ := h
  have hcount := h.count
  rw [List.length_map] at hcount
  rw [xQueueGenericSend, Uart.xQueueSendToFrontFromISR, hcount, h.length]
  by_cases hroom : xs.length < Uart.rxQueueLength
  · rw [if_pos (.inl hroom), if_pos hroom]
    exact ⟨_, h.sendToFront (by rwa [List.length_map]) fun _ => b⟩
  · rw [if_neg (by simp [hroom]), if_neg hroom]
    exact ⟨r, h⟩

theorem HasBytes.rxCb (h : HasBytes q xs) (buf : List Byte) :
    HasBytes (ringRxCb q buf) (Uart.bspUartRxCb xs buf) := by
  induction buf generalizing q xs with
  | nil => exact h
  | cons b buf ih => exact ih (h.send b)

/-- The port is the port with the list. -/
structure Refines (s : RingPort) (p : Uart.Port) : Prop where
  queue : HasBytes s.rxQueue p.rxQueue
  tick : p.tick = s.tick
  receive : p.receive = s.receive
  delivered : p.delivered = s.delivered
  returned : p.returned = s.returned

/-- The call in progress runs on. -/
theorem Refines.task (h : Refines s p) (c : Uart.Receive) :
    Refines (ringReceiveStep s c) (Uart.bspUartReceiveStep p c).1 := by
  obtain ⟨⟨r, hq⟩, htick, hreceive, hdelivered, hreturned⟩ := h
  obtain ⟨xs, tick, receive, delivered, returned⟩ := p
  dsimp only at hq htick hreceive hdelivered hreturned
  subst htick hreceive hdelivered hreturned
  rw [ringReceiveStep, Uart.bspUartReceiveStep]
  split
  · cases xs with
    | nil =>
      have hempty : (xQueueReceive s.rxQueue).1 = none := by
        rw [xQueueReceive, hq.count]
        rfl
      dsimp only
      rw [hempty]
      exact ⟨⟨r, hq⟩, rfl, rfl, rfl, rfl⟩
    | cons b xs =>
      obtain ⟨hitem, hrest⟩ := hq.receive
      dsimp only
      rw [hitem]
      dsimp only [Uart.xQueueReceive]
      split
      · exact ⟨⟨_, hrest⟩, rfl, rfl, rfl, rfl⟩
      · exact ⟨⟨_, hrest⟩, rfl, rfl, rfl, rfl⟩
  · dsimp only
    split
    · exact ⟨⟨r, hq⟩, rfl, rfl, rfl, rfl⟩
    · exact ⟨⟨r, hq⟩, rfl, rfl, rfl, rfl⟩

/-- A step is a step of the port with the list. -/
theorem Refines.next (h : Refines s p) {a : Uart.UartAct} (hn : ringUart.next s a = some u) :
    ∃ p', Uart.uart.next p a = some p' ∧ Refines u p' := by
  cases a with
  | rxCb buf =>
    obtain rfl := Option.some.inj hn
    exact ⟨_, rfl, h.queue.rxCb buf, h.tick, h.receive, congrArg (· ++ buf) h.delivered, h.returned⟩
  | tick =>
    obtain rfl := Option.some.inj hn
    exact ⟨_, rfl, h.queue, congrArg (· + 1) h.tick, h.receive, h.delivered, h.returned⟩
  | receive len timeout =>
    dsimp only [ringUart] at hn
    split at hn
    · next hidle =>
      obtain rfl := Option.some.inj hn
      have hidle' : p.receive = none := h.receive.trans hidle
      refine ⟨_, if_pos hidle', h.queue, h.tick, ?_, h.delivered, h.returned⟩
      show some (Uart.Receive.mk len timeout p.tick [] false) = _
      rw [h.tick]
    · exact absurd hn.symm (Option.some_ne_none u)
  | task =>
    obtain ⟨c, hc, rfl⟩ := Option.map_eq_some_iff.mp hn
    refine ⟨(Uart.bspUartReceiveStep p c).1, ?_, h.task c⟩
    show p.receive.map _ = _
    rw [h.receive, hc]
    rfl

/-- A run of the port on the kernel's queue is a run of the port with the list: what is delivered,
what is returned and the count are the same, and no access is outside the storage. -/
theorem ring_refines_list {as : List Uart.UartAct} (hi : ringUart.init s) (hr : ringUart.Run Lts.any s as u) :
    ∃ p p', Uart.uart.init p ∧ Uart.uart.Run Lts.any p as p' ∧ p'.receive = u.receive ∧
      p'.delivered = u.delivered ∧
      p'.returned = u.returned ∧ Uart.bspUartAvailable p'.rxQueue = uxQueueMessagesWaiting u.rxQueue ∧
        u.rxQueue.storage.Within () 256 := by
  obtain ⟨sizeofQueue, m, q, tick, hq, hm, rfl⟩ := hi
  have hrun : ∃ p', Uart.uart.Run Lts.any (.init tick) as p' ∧ Refines u p' := by
    induction hr with
    | nil => exact ⟨_, .nil, ⟨0, xQueueGenericCreate_holds hm hq⟩, rfl, rfl, rfl, rfl⟩
    | snoc _ _ hn ih =>
      obtain ⟨p, hrun, href⟩ := ih
      obtain ⟨p', hn', href'⟩ := href.next hn
      exact ⟨p', hrun.snoc trivial hn', href'⟩
  obtain ⟨p', hrun, href⟩ := hrun
  obtain ⟨r, hholds⟩ := href.queue
  have hcount := hholds.count
  rw [List.length_map] at hcount
  exact ⟨_, p', ⟨tick, rfl⟩, hrun, href.receive, href.delivered, href.returned, hcount.symm, hholds.bounds⟩

/-- The ring of a port after `bsp_uart_init`. -/
def ringStart : RingPort := ⟨⟨zeros, 256, 0, 255, 0, 256, 1⟩, 0, none, [], []⟩

/-- Two bytes delivered at once, and a call that returns them the other way round. -/
def swapped : List Uart.UartAct := [.rxCb [1, 2], .receive 2 10, .task, .task, .task, .task]

theorem ring_refines_list_swapped :
    ∃ p p', Uart.uart.init p ∧ Uart.uart.Run Lts.any p swapped p' ∧ p'.delivered = [1, 2] ∧
      p'.returned = [2, 1] := by
  have hr := Lts.Run.any_of_exec ringUart ringStart swapped (by decide)
  have hi : ringUart.init ringStart := ⟨80, zeros, ⟨zeros, 256, 0, 255, 0, 256, 1⟩, 0, rfl, rfl, rfl⟩
  obtain ⟨p, p', hp, hrun, -, hdelivered, hreturned, -⟩ := ring_refines_list hi hr
  exact ⟨p, p', hp, hrun, hdelivered.trans (by decide), hreturned.trans (by decide)⟩

end Rs485.RtosQueue
