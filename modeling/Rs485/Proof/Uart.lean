import Rs485.Impl.Modbus.Port
import Rs485.Impl.Uart

/-!
# UART reception keeps the order of bytes that are read one by one

The interrupt puts a byte before those that wait. `returned_prefix`: what the
calls of `bsp_uart_receive` return is a prefix of what was delivered as long as
every delivery leaves the queue as if its bytes had been put behind
(`KeepsOrder`). `rxCb_reorders`: after any other delivery a call that empties
the queue returns the bytes in another order.
-/

namespace Rs485.Uart

open Rs485.Framework

/-- The receive queue of the Modbus port is one of these. -/
theorem board_rxQueue (b : Modbus.Board) (byte : Byte) :
    (Modbus.bspUartRxCb b byte).rxQueue = bspUartRxCb b.rxQueue [byte] := by
  simp only [Modbus.bspUartRxCb, bspUartRxCb, xQueueSendToFrontFromISR, List.foldl_cons, List.foldl_nil]
  split <;> rfl

/-- A delivery that fits ends up in front, last byte first. -/
theorem bspUartRxCb_eq {q buf : List Byte} (h : q.length + buf.length ≤ rxQueueLength) :
    bspUartRxCb q buf = buf.reverse ++ q := by
  induction buf generalizing q with
  | nil => rfl
  | cons b buf ih =>
    simp only [List.length_cons] at h
    have hsend : xQueueSendToFrontFromISR q b = b :: q := if_pos (by omega)
    rw [bspUartRxCb, List.foldl_cons, hsend, ← bspUartRxCb, ih (by simp only [List.length_cons]; omega)]
    simp

/-- The bytes the call in progress has stored. -/
def Port.inCall (s : Port) : List Byte := s.receive.elim [] Receive.buff

/-- The bytes taken out of the queue so far. -/
def Port.taken (s : Port) : List Byte := s.returned ++ s.inCall

section

variable (s : Port) (c : Receive)

@[simp] theorem ret_fst : (s.ret c).1 = { s with receive := none, returned := s.returned ++ c.buff } := rfl
@[simp] theorem ret_snd : (s.ret c).2 = some c.buff := rfl
@[simp] theorem goOn_fst : (s.goOn c).1 = { s with receive := some c } := rfl
@[simp] theorem goOn_snd : (s.goOn c).2 = none := rfl

end

/-- What a step of the call does: it moves at most a byte from the head of the queue to the
end of what it stored, and returns or goes on. -/
theorem task_cases (s : Port) (c : Receive) :
    ∃ (taken q : List Byte) (c' : Receive), s.rxQueue = taken ++ q ∧ c'.buff = c.buff ++ taken ∧
      (bspUartReceiveStep s c = { s with rxQueue := q }.ret c' ∨
        bspUartReceiveStep s c = { s with rxQueue := q }.goOn c') := by
  obtain ⟨rxQueue, tick, receive, delivered, returned⟩ := s
  rw [bspUartReceiveStep]
  split
  · cases rxQueue with
    | nil => exact ⟨[], [], { c with inQueueReceive := false }, rfl, by simp, Or.inr rfl⟩
    | cons b q =>
      refine ⟨[b], q, { c with buff := c.buff ++ [b], inQueueReceive := false }, rfl, rfl, ?_⟩
      simp only [xQueueReceive]
      split
      · exact Or.inl rfl
      · exact Or.inr rfl
  · split
    · exact ⟨[], rxQueue, { c with inQueueReceive := true }, rfl, by simp, Or.inr rfl⟩
    · exact ⟨[], rxQueue, c, rfl, by simp, Or.inl rfl⟩

/-- The call moves bytes from the head of the queue to the end of what was taken. -/
theorem task_taken {s : Port} {c : Receive} (h : s.receive = some c) :
    (bspUartReceiveStep s c).1.taken ++ (bspUartReceiveStep s c).1.rxQueue = s.taken ++ s.rxQueue := by
  obtain ⟨taken, q, c', hq, hb, hr | hr⟩ := task_cases s c <;>
  simp [hr, h, hq, hb, Port.taken, Port.inCall]

@[simp] theorem task_delivered (s : Port) (c : Receive) :
    (bspUartReceiveStep s c).1.delivered = s.delivered := by
  obtain ⟨_, _, _, -, -, hr | hr⟩ := task_cases s c <;> simp [hr]

/-- The queue has room for what the interrupt delivers. -/
def Fits (s : Port) : UartAct → Prop
  | .rxCb buf => s.rxQueue.length + buf.length ≤ rxQueueLength
  | _ => True

instance (s : Port) : (a : UartAct) → Decidable (Fits s a)
  | .rxCb _ => inferInstanceAs (Decidable (_ ≤ _))
  | .tick => .isTrue trivial
  | .receive _ _ => .isTrue trivial
  | .task => .isTrue trivial

/-- Put before the queue one by one, the bytes delivered give the queue they give behind it. -/
def KeepsOrder (s : Port) : UartAct → Prop
  | .rxCb buf => buf.reverse ++ s.rxQueue = s.rxQueue ++ buf
  | _ => True

instance (s : Port) : (a : UartAct) → Decidable (KeepsOrder s a)
  | .rxCb _ => inferInstanceAs (Decidable (_ = _))
  | .tick => .isTrue trivial
  | .receive _ _ => .isTrue trivial
  | .task => .isTrue trivial

/-- A single byte keeps the order if the queue holds no other value, so if it is empty. -/
theorem keepsOrder_byte {s : Port} {b : Byte} :
    KeepsOrder s (.rxCb [b]) ↔ ∀ x ∈ s.rxQueue, x = b := by
  show b :: s.rxQueue = s.rxQueue ++ [b] ↔ _
  induction s.rxQueue with
  | nil => simp
  | cons x q ih =>
    simp only [List.cons_append, List.cons.injEq, List.forall_mem_cons, ← ih]
    constructor
    · rintro ⟨rfl, h⟩
      exact ⟨rfl, h⟩
    · rintro ⟨rfl, h⟩
      exact ⟨rfl, h⟩

/-- What was delivered is what was taken and what waits, in this order. -/
def InOrder (s : Port) : Prop := s.delivered = s.taken ++ s.rxQueue

theorem InOrder.step {s t : Port} {a : UartAct} (hs : InOrder s) (hf : Fits s a) (ho : KeepsOrder s a)
    (hn : uart.next s a = some t) : InOrder t := by
  cases a with
  | rxCb buf =>
    cases hn
    show s.delivered ++ buf = s.taken ++ bspUartRxCb s.rxQueue buf
    rw [bspUartRxCb_eq hf, ho, hs, List.append_assoc]
  | tick => cases hn; exact hs
  | receive len timeout =>
    change (if s.receive = none then _ else none) = some t at hn
    split at hn
    · rename_i hnone
      cases hn
      have htaken : (bspUartReceive s len timeout).taken = s.taken := by
        simp [Port.taken, Port.inCall, bspUartReceive, hnone]
      rw [InOrder, htaken]
      exact hs
    · cases hn
  | task =>
    obtain ⟨c, hc, rfl⟩ := Option.map_eq_some_iff.mp hn
    rw [InOrder, task_taken hc, task_delivered]
    exact hs

/-- In every run in which the queue never overflows and each delivery keeps the order, the
bytes returned are a prefix of the bytes delivered. -/
theorem returned_prefix (s : Port) (hr : uart.Reach (fun s a => Fits s a ∧ KeepsOrder s a) s) :
    s.returned <+: s.delivered := by
  have hI : InOrder s := by
    refine hr.inv (fun s hs => ?_) fun s a t hs hok hn => hs.step hok.1 hok.2 hn
    obtain ⟨tick, rfl⟩ := hs
    rfl
  rw [hI, Port.taken, List.append_assoc]
  exact List.prefix_append _ _

/-- Bytes that are read before the next ones come. -/
theorem returned_prefix_read : ([7, 8] : List Byte) <+: [7, 8] := by
  have hr := Lts.Run.of_decide uart (fun s a => Fits s a ∧ KeepsOrder s a) (.init 0)
    [.rxCb [7], .receive 1 10, .task, .task, .rxCb [8], .receive 1 10, .task, .task] (by decide)
  exact returned_prefix _ ⟨_, _, ⟨0, rfl⟩, hr⟩

/-! ## Any other delivery -/

/-- A call that has time and asks for as many bytes as wait returns them all. -/
theorem drain {q : List Byte} (tick : BitVec 32) {c : Receive} {d r : List Byte} (hq : q ≠ [])
    (hw : c.inQueueReceive = false) (ht : tick - c.time < c.timeout)
    (hl : c.len.toNat = c.buff.length + q.length) :
    ∃ as, uart.Run Lts.any ⟨q, tick, some c, d, r⟩ as ⟨[], tick, none, d, r ++ c.buff ++ q⟩ := by
  induction q generalizing c with
  | nil => exact absurd rfl hq
  | cons b q ih =>
    have htest : uart.next ⟨b :: q, tick, some c, d, r⟩ .task =
        some ⟨b :: q, tick, some { c with inQueueReceive := true }, d, r⟩ := by
      simp [uart, bspUartReceiveStep, hw, ht]
    have hread : uart.next ⟨b :: q, tick, some { c with inQueueReceive := true }, d, r⟩ .task =
        some (if c.len.toNat ≤ (c.buff ++ [b]).length then ⟨q, tick, none, d, r ++ (c.buff ++ [b])⟩
          else ⟨q, tick, some { c with buff := c.buff ++ [b], inQueueReceive := false }, d, r⟩) := by
      simp only [uart, bspUartReceiveStep, xQueueReceive, if_true, Option.map_some, Option.some.injEq]
      split <;> simp
    simp only [List.length_append, List.length_cons, List.length_nil] at hl hread
    by_cases hnil : q = []
    · subst hnil
      rw [if_pos (by simp only [List.length_nil] at hl; omega)] at hread
      refine ⟨[.task, .task], ?_⟩
      simpa [List.append_assoc] using Lts.Run.cons trivial htest (.cons trivial hread .nil)
    · have hpos := List.length_pos_iff.mpr hnil
      rw [if_neg (by omega)] at hread
      obtain ⟨as, hr⟩ := ih (c := { c with buff := c.buff ++ [b], inQueueReceive := false }) hnil rfl ht
        (by simp only [List.length_append, List.length_cons, List.length_nil]; omega)
      refine ⟨.task :: .task :: as, ?_⟩
      simpa [List.append_assoc] using Lts.Run.cons trivial htest (.cons trivial hread hr)

/-- After a delivery that does not keep the order, while no call is in progress, a call
that empties the queue returns the bytes in another order. -/
theorem rxCb_reorders {s : Port} {buf : List Byte} (hs : InOrder s) (hidle : s.receive = none)
    (hf : Fits s (.rxCb buf)) (hbad : ¬ KeepsOrder s (.rxCb buf)) :
    ∃ as t, uart.Run Lts.any s (.rxCb buf :: as) t ∧ ¬ t.returned <+: t.delivered := by
  obtain ⟨q, tick, receive, delivered, returned⟩ := s
  subst hidle
  change q.length + buf.length ≤ 256 at hf
  change ¬ buf.reverse ++ q = q ++ buf at hbad
  have hd : delivered = returned ++ q := by
    simpa [InOrder, Port.taken, Port.inCall] using hs
  have hne : buf.reverse ++ q ≠ [] := by
    intro h
    simp only [List.append_eq_nil_iff, List.reverse_eq_nil_iff] at h
    exact hbad (by simp [h.1, h.2])
  have hlen : (BitVec.ofNat 32 (buf.reverse ++ q).length).toNat = (buf.reverse ++ q).length := by
    rw [BitVec.toNat_ofNat, Nat.mod_eq_of_lt]
    simp only [List.length_append, List.length_reverse]
    omega
  obtain ⟨as, hr⟩ := drain tick (d := delivered ++ buf) (r := returned)
    (c := ⟨BitVec.ofNat 32 (buf.reverse ++ q).length, 10, tick, [], false⟩) hne rfl (by simp)
    (by simpa using hlen)
  have hcb : uart.next ⟨q, tick, none, delivered, returned⟩ (.rxCb buf) =
      some ⟨buf.reverse ++ q, tick, none, delivered ++ buf, returned⟩ := by
    simp only [uart, bspUartRxCb_eq hf]
  refine ⟨.receive (BitVec.ofNat 32 (buf.reverse ++ q).length) 10 :: as, _,
    .cons trivial hcb (.cons trivial rfl hr), fun hp => hbad ?_⟩
  simp only [hd, List.append_nil, List.append_assoc, List.prefix_append_right_inj] at hp
  exact hp.eq_of_length (by simp [Nat.add_comm])

/-- Two bytes that wait are returned last one first. -/
theorem not_returned_prefix :
    ¬ ∀ s : Port, uart.Reach Fits s → s.returned <+: s.delivered := by
  intro h
  have hr := Lts.Run.of_decide uart Fits (.init 0)
    [.rxCb [7, 8], .receive 2 10, .task, .task, .task, .task] (by decide)
  exact absurd (h _ ⟨_, _, ⟨0, rfl⟩, hr⟩) (by decide)

end Rs485.Uart
