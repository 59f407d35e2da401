import Mathlib.Data.List.Induction
import Rs485.Impl.UartReceive
import Rs485.Proof.Uart

/-!
# What `bsp_uart_receive` stores

The bytes in the buffer are those taken from the head of the queue, in order and nothing
else (`Stored`), as long as there is one. But the call tests `len` only behind a store, so
that it stores a byte also where none is asked for, and it returns its count as an `int`
(`receive_iff`). `uart_simulates`: the system `uart` does the same with the list of these
bytes.
-/

namespace Rs485.Uart

open Rs485.Framework

/-- The call has stored the bytes it removed, from `buff[0]` on, and made no other access; `m` is
the buffer before the call. -/
structure Stored (m : Mem Unit Byte) (s : Receiving) : Prop where
  count : s.i.toNat = s.removed.length
  bytes : s.buff.slice ⟨(), 0⟩ s.removed.length = s.removed
  beyond : ∀ j, s.removed.length ≤ j → s.buff.data () j = m.data () j
  within : s.buff.Within () s.removed.length

/-- The call that returned `result` stored `k ≤ len` bytes in `buff[0..k-1]` and nothing beyond,
returned `k`, and removed just these from the head of the queue, in order. -/
def ExactReceive (m : Mem Unit Byte) (s : Receiving) (result : Int) : Prop :=
  ∃ k : Nat, k ≤ s.len.toNat ∧ result = k ∧ s.removed.length = k ∧ s.buff.slice ⟨(), 0⟩ k = s.removed ∧
    (∀ j, k ≤ j → s.buff.data () j = m.data () j) ∧ s.buff.Within () k

/-- No byte is in the queue when `xQueueReceive` asks for one in a call with `len = 0`, or for the 2³¹st. -/
def Asked (s : Receiving) (a : ReceivingAct) : Prop :=
  a = .port .task → s.pc = .queueReceive → s.rxQueue ≠ [] → s.len ≠ 0 ∧ s.i.toNat + 1 < 0x80000000

instance decidableAsked (s : Receiving) (a : ReceivingAct) : Decidable (Asked s a) :=
  inferInstanceAs (Decidable (_ → _ → _ → _ ∧ _))

section

variable {s t : Receiving} {a : ReceivingAct} {m : Mem Unit Byte}

/-- What a step changes: the surroundings, the place in the loop, or it is a byte. -/
inductive Step (s : Receiving) (a : ReceivingAct) : Receiving → Prop
  | around (q : List Byte) (tick : BitVec 32) : a ≠ .port .task →
    Step s a { s with rxQueue := q, tick := tick }
  | test : s.pc = .test → a = .port .task → Step s a { s with pc := .queueReceive }
  | expired : s.pc = .test → a = .port .task → Step s a s.ret
  | none : s.pc = .queueReceive → a = .port .task → s.rxQueue = [] → Step s a { s with pc := .test }
  | byte (b : Byte) (q : List Byte) : s.pc = .queueReceive → a = .port .task → s.rxQueue = b :: q →
    Step s a (if s.len ≤ s.i + 1 then (s.put b q).ret else s.put b q)

theorem receiving_step (hn : receiving.next s a = some t) : Step s a t := by
  cases a with
  | drain n =>
    cases hn
    exact .around _ s.tick (by simp)
  | port a =>
    cases a with
    | rxCb buf =>
      cases hn
      exact .around _ s.tick (by simp)
    | tick =>
      cases hn
      exact .around s.rxQueue _ (by simp)
    | receive len timeout => cases hn
    | task =>
      have hn : receivingStep s = some t := hn
      cases hpc : s.pc with
      | returned r => simp [receivingStep, hpc] at hn
      | test =>
        simp only [receivingStep, hpc, Option.some.injEq] at hn
        subst hn
        split
        · exact .test hpc rfl
        · exact .expired hpc rfl
      | queueReceive =>
        cases hq : s.rxQueue with
        | nil =>
          have hnone : receivingStep s = some { s with pc := .test } := by
            simp only [receivingStep, hpc, xQueueReceive, hq]
          obtain rfl := Option.some.inj (hnone.symm.trans hn)
          exact .none hpc rfl hq
        | cons b q =>
          simp only [receivingStep, hpc, xQueueReceive, hq, Option.some.injEq] at hn
          subst hn
          exact .byte b q hpc rfl hq

/-- What the call removes between two states is the head of the queue. -/
def TakesHead (s t : Receiving) : Prop :=
  ∃ xs, s.rxQueue = xs ++ t.rxQueue ∧ t.removed = s.removed ++ xs

theorem Step.takesHead (h : Step s (.port .task) t) : TakesHead s t := by
  cases h with
  | around q tick hne => exact absurd rfl hne
  | test => exact ⟨[], rfl, (List.append_nil _).symm⟩
  | expired => exact ⟨[], rfl, (List.append_nil _).symm⟩
  | none => exact ⟨[], rfl, (List.append_nil _).symm⟩
  | byte b q _ _ hq =>
    rw [TakesHead, hq]
    split <;> exact ⟨[b], rfl, rfl⟩

/-! ## The loop -/

/-- What holds throughout a call: in the loop there is room for a byte more, if `len` is not 0. -/
structure InCall (m : Mem Unit Byte) (s : Receiving) : Prop where
  stored : Stored m s
  room : (∀ r, s.pc ≠ .returned r) → s.i.toNat = 0 ∨ s.i.toNat < s.len.toNat
  result : ∀ r, s.pc = .returned r → r = s.i.toInt

/-- Only the buffer, the index and the bytes removed matter. -/
theorem Stored.congr (h : Stored m s) (hb : t.buff = s.buff) (hi : t.i = s.i) (hr : t.removed = s.removed) :
    Stored m t := by
  refine ⟨?_, ?_, fun j hj => ?_, ?_⟩
  · rw [hi, hr, h.count]
  · rw [hb, hr, h.bytes]
  · rw [hr] at hj
    rw [hb, h.beyond j hj]
  · rw [hb, hr]
    exact h.within

theorem inCall_init (h : receiving.init s) : InCall s.buff s := by
  obtain ⟨rxQueue, tick, buff, len, timeout, hlog, rfl⟩ := h
  refine ⟨⟨rfl, rfl, fun _ _ => rfl, fun i hi => ?_⟩, fun _ => Or.inl rfl, fun r hr => by cases hr⟩
  rw [show (receivingInit rxQueue tick buff len timeout).buff.log = [] from hlog] at hi
  cases hi

/-- One more byte. -/
theorem Stored.put (h : Stored m s) (hlt : s.i.toNat + 1 < 0x100000000) (b : Byte) (q : List Byte) :
    Stored m (s.put b q) ∧ (s.put b q).i.toNat = s.i.toNat + 1 := by
  have hcount : (s.i + 1).toNat = s.i.toNat + 1 := by
    rw [BitVec.toNat_add]
    exact Nat.mod_eq_of_lt hlt
  have hlen : (s.removed ++ [b]).length = s.removed.length + 1 := List.length_append
  refine ⟨⟨?_, ?_, fun j hj => ?_, ?_⟩, hcount⟩
  · show (s.i + 1).toNat = (s.removed ++ [b]).length
    rw [hcount, h.count, hlen]
  · show (s.buff.store ⟨(), s.i.toNat⟩ b).slice ⟨(), 0⟩ (s.removed ++ [b]).length = s.removed ++ [b]
    rw [hlen, Mem.slice_succ, Mem.slice_store (fun _ => Or.inr (by rw [h.count]; simp)), h.bytes]
    simp [Mem.store_data, h.count]
  · have hj : s.removed.length + 1 ≤ j := by rwa [← hlen]
    have hne : j ≠ s.i.toNat := by
      rw [h.count]
      omega
    show (s.buff.store ⟨(), s.i.toNat⟩ b).data () j = m.data () j
    rw [Mem.store_data, if_neg fun h' => hne h'.2, h.beyond j (by omega)]
  · show (s.buff.store ⟨(), s.i.toNat⟩ b).Within () (s.removed ++ [b]).length
    rw [hlen]
    refine Mem.within_store.mpr ⟨fun _ => ?_, fun j hj => Nat.lt_succ_of_lt (h.within j hj)⟩
    rw [h.count]
    exact Nat.lt_succ_self _

/-- In the loop the index does not wrap. -/
theorem InCall.index (h : InCall m s) (hpc : s.pc = .queueReceive) : s.i.toNat + 1 < 0x100000000 := by
  have hlen := s.len.isLt
  rcases h.room (by simp [hpc]) with h | h <;> omega

theorem InCall.step (h : InCall m s) (hs : Step s a t) : InCall m t := by
  have hstored := h.stored
  cases hs with
  | around q tick => exact ⟨hstored.congr rfl rfl rfl, h.room, h.result⟩
  | test hpc =>
    exact ⟨hstored.congr rfl rfl rfl, fun _ => h.room (by simp [hpc]), fun r hr => by cases hr⟩
  | expired hpc =>
    exact ⟨hstored.congr rfl rfl rfl, fun hne => absurd rfl (hne _), fun r hr => by cases hr; rfl⟩
  | none hpc =>
    exact ⟨hstored.congr rfl rfl rfl, fun _ => h.room (by simp [hpc]), fun r hr => by cases hr⟩
  | byte b q hpc =>
    obtain ⟨hput, hcount⟩ := hstored.put (h.index hpc) b q
    split
    · exact ⟨hput.congr rfl rfl rfl, fun hne => absurd rfl (hne _),
        fun r hr => by cases hr; rfl⟩
    · rename_i hlt
      exact ⟨hput, fun _ => Or.inr (Nat.lt_of_not_le hlt), fun r hr => by cases hr⟩

/-! ## The defect -/

/-- No byte too many, and none that the result cannot count. -/
def Counted (s : Receiving) : Prop := s.i.toNat ≤ s.len.toNat ∧ s.i.toNat < 0x80000000

/-- A step other than a byte leaves the count alone. -/
theorem Step.count (h : InCall m s) (hs : Step s a t) :
    t.len = s.len ∧ ((Asked s a ∧ t.i = s.i) ∨
      (t.i.toNat = s.i.toNat + 1 ∧ (Asked s a ↔ s.len ≠ 0 ∧ s.i.toNat + 1 < 0x80000000) ∧
        (s.i.toNat = 0 ∨ s.i.toNat < s.len.toNat))) := by
  cases hs with
  | around q tick hne => exact ⟨rfl, Or.inl ⟨fun h => absurd h hne, rfl⟩⟩
  | test hpc => exact ⟨rfl, Or.inl ⟨fun _ hq => (by rw [hpc] at hq; cases hq), rfl⟩⟩
  | expired hpc => exact ⟨rfl, Or.inl ⟨fun _ hq => (by rw [hpc] at hq; cases hq), rfl⟩⟩
  | none hpc _ hq => exact ⟨rfl, Or.inl ⟨fun _ _ hne => absurd hq hne, rfl⟩⟩
  | byte b q hpc ha hq =>
    obtain ⟨-, hcount⟩ := h.stored.put (h.index hpc) b q
    have hasked : Asked s a ↔ s.len ≠ 0 ∧ s.i.toNat + 1 < 0x80000000 := by
      exact ⟨fun h => h ha hpc (by simp [hq]), fun h _ _ _ => h⟩
    have hroom := h.room (by simp [hpc])
    split <;> exact ⟨rfl, Or.inr ⟨hcount, hasked, hroom⟩⟩

theorem Counted.step (h : Counted s) (hin : InCall m s) (ha : Asked s a) (hs : Step s a t) : Counted t := by
  obtain ⟨hlen, ⟨-, hi⟩ | ⟨hi, hasked, hroom⟩⟩ := hs.count hin
  · rw [Counted, hlen, hi]
    exact h
  · obtain ⟨hne, hlt⟩ := hasked.mp ha
    have hpos : s.len.toNat ≠ 0 := fun h0 => hne (BitVec.eq_of_toNat_eq h0)
    rw [Counted, hlen, hi]
    exact ⟨by omega, hlt⟩

theorem Step.not_counted (hin : InCall m s) (ha : ¬ Asked s a) (hs : Step s a t) :
    ¬ Counted t := by
  obtain ⟨hlen, ⟨hasked, -⟩ | ⟨hi, hasked, -⟩⟩ := hs.count hin
  · exact absurd hasked ha
  · intro ht
    rw [Counted, hlen, hi] at ht
    refine ha (hasked.mpr ⟨?_, ht.2⟩)
    intro h0
    rw [h0] at ht
    exact absurd ht.1 (Nat.not_succ_le_zero _)

theorem Step.stays (h : ¬ Counted s) (hin : InCall m s) (hs : Step s a t) : ¬ Counted t := by
  obtain ⟨hlen, ⟨-, hi⟩ | ⟨hi, -, -⟩⟩ := hs.count hin
  · rw [Counted, hlen, hi]
    exact h
  · rw [Counted, hlen, hi]
    intro ht
    exact h ⟨by omega, by omega⟩

/-- What a call that has returned made of it. -/
theorem InCall.exact_iff (h : InCall m s) {r : Int} (hr : s.pc = .returned r) :
    ExactReceive m s r ↔ Counted s := by
  have hcount := h.stored.count
  have hresult := h.result r hr
  constructor
  · rintro ⟨k, hle, hrk, hk, -⟩
    have hi : s.i.toNat = k := by rw [hcount, hk]
    refine ⟨by omega, ?_⟩
    by_cases hlt : s.i.toNat < 0x80000000
    · exact hlt
    · rw [BitVec.toInt_eq_toNat_cond, if_neg (by omega)] at hresult
      omega
  · rintro ⟨hle, hlt⟩
    refine ⟨s.removed.length, hcount ▸ hle, ?_, rfl, h.stored.bytes, h.stored.beyond, h.stored.within⟩
    rw [hresult, BitVec.toInt_eq_toNat_of_lt (by omega), hcount]

/-! ## Time -/

/-- The ticks of a run. -/
def ticks (as : List ReceivingAct) : Nat := as.count (.port .tick)

/-- The arguments and the start of the call stay, and the tick advances. -/
theorem receiving_time (hn : receiving.next s a = some t) :
    t.time = s.time ∧ t.timeout = s.timeout ∧ t.tick = s.tick + BitVec.ofNat 32 (ticks [a]) := by
  have hzero : s.tick + BitVec.ofNat 32 0 = s.tick := BitVec.add_zero _
  cases a with
  | drain n =>
    cases hn
    exact ⟨rfl, rfl, hzero.symm⟩
  | port a =>
    cases a with
    | rxCb buf =>
      cases hn
      exact ⟨rfl, rfl, hzero.symm⟩
    | tick =>
      cases hn
      exact ⟨rfl, rfl, rfl⟩
    | receive len timeout => cases hn
    | task =>
      cases receiving_step hn with
      | around q tick hne => exact absurd rfl hne
      | test => exact ⟨rfl, rfl, hzero.symm⟩
      | expired => exact ⟨rfl, rfl, hzero.symm⟩
      | none => exact ⟨rfl, rfl, hzero.symm⟩
      | byte b q => split <;> exact ⟨rfl, rfl, hzero.symm⟩

theorem run_time {as : List ReceivingAct} (h : receiving.Run Lts.any s as t) :
    t.time = s.time ∧ t.timeout = s.timeout ∧ t.tick = s.tick + BitVec.ofNat 32 (ticks as) := by
  induction h with
  | nil => exact ⟨rfl, rfl, (BitVec.add_zero _).symm⟩
  | snoc _ _ hn ih =>
    obtain ⟨htime, htimeout, htick⟩ := receiving_time hn
    refine ⟨htime.trans ih.1, htimeout.trans ih.2.1, ?_⟩
    rw [htick, ih.2.2, BitVec.add_assoc, ← BitVec.ofNat_add, ticks, ticks, ticks, List.count_append]

/-- The call has returned after the next steps, two at most. -/
def Returns (s : Receiving) : Prop :=
  ∃ n t r, n ≤ 2 ∧ receiving.Run Lts.any s (List.replicate n (.port .task)) t ∧ t.pc = .returned r

/-- At the test of the loop one step is enough. -/
theorem returns_test (hpc : s.pc = .test) (ht : ¬ s.tick - s.time < s.timeout) :
    receiving.next s (.port .task) = some s.ret := by
  simp only [receiving, receivingStep, hpc, ht, if_false]

/-- Once the time is up the call returns; `xQueueReceive` takes a step of its own. -/
theorem returns (ht : ¬ s.tick - s.time < s.timeout) : Returns s := by
  have htwo : ∀ t, receiving.next s (.port .task) = some t → t.pc = .test → t.tick = s.tick →
      t.time = s.time → t.timeout = s.timeout → Returns s := by
    intro t hn hpc htick htime htimeout
    have hret := returns_test hpc (by rwa [htick, htime, htimeout])
    exact ⟨2, t.ret, _, Nat.le_refl _, .cons trivial hn (.cons trivial hret .nil), rfl⟩
  cases hpc : s.pc with
  | returned r => exact ⟨0, s, r, Nat.zero_le _, .nil, hpc⟩
  | test => exact ⟨1, s.ret, _, Nat.le_succ 1, .cons trivial (returns_test hpc ht) .nil, rfl⟩
  | queueReceive =>
    cases hq : s.rxQueue with
    | nil =>
      have hn : receiving.next s (.port .task) = some { s with pc := .test } := by
        simp only [receiving, receivingStep, hpc, hq, xQueueReceive]
      exact htwo _ hn rfl rfl rfl rfl
    | cons b q =>
      have hn : receiving.next s (.port .task) =
          some (if s.len ≤ s.i + 1 then (s.put b q).ret else s.put b q) := by
        simp only [receiving, receivingStep, hpc, hq, xQueueReceive]
        rfl
      by_cases hlen : s.len ≤ s.i + 1
      · rw [if_pos hlen] at hn
        exact ⟨1, (s.put b q).ret, _, Nat.le_succ 1, .cons trivial hn .nil, rfl⟩
      · rw [if_neg hlen] at hn
        exact htwo _ hn rfl rfl rfl rfl

end

/-! ## The list of bytes -/

section

variable {s t : Receiving} {m : Mem Unit Byte} (d r : List Byte)

/-- The call in progress, with the list of bytes that it removed. -/
def Receiving.call (s : Receiving) : Option Receive :=
  match s.pc with
  | .test => some ⟨s.len, s.timeout, s.time, s.removed, false⟩
  | .queueReceive => some ⟨s.len, s.timeout, s.time, s.removed, true⟩
  | .returned _ => none

/-- What the call has returned. -/
def Receiving.result (s : Receiving) : List Byte :=
  match s.pc with
  | .returned _ => s.removed
  | _ => []

/-- The port with this call, where `d` was delivered and `r` returned before. -/
def Receiving.port (s : Receiving) : Port := ⟨s.rxQueue, s.tick, s.call, d, r ++ s.result⟩

/-- The port does what the call does. -/
theorem port_step {a : UartAct} (h : InCall m s) (hn : receiving.next s (.port a) = some t) :
    ∃ d', uart.next (s.port d r) a = some (t.port d' r) := by
  cases a with
  | rxCb buf =>
    cases hn
    exact ⟨d ++ buf, rfl⟩
  | tick =>
    cases hn
    exact ⟨d, rfl⟩
  | receive len timeout => cases hn
  | task =>
    refine ⟨d, ?_⟩
    have hn : receivingStep s = some t := hn
    cases hpc : s.pc with
    | returned r => simp [receivingStep, hpc] at hn
    | test =>
      simp only [receivingStep, hpc, Option.some.injEq] at hn
      subst hn
      by_cases ht : s.tick - s.time < s.timeout
      · simp [uart, Receiving.port, Receiving.call, Receiving.result, hpc, bspUartReceiveStep, ht]
      · simp [uart, Receiving.port, Receiving.call, Receiving.result, Receiving.ret, hpc,
          bspUartReceiveStep, ht]
    | queueReceive =>
      cases hq : s.rxQueue with
      | nil =>
        simp only [receivingStep, hpc, xQueueReceive, hq, Option.some.injEq] at hn
        subst hn
        simp [uart, Receiving.port, Receiving.call, Receiving.result, hpc, bspUartReceiveStep,
          xQueueReceive, hq]
      | cons b q =>
        have hlen : s.len ≤ s.i + 1 ↔ s.len.toNat ≤ s.removed.length + 1 := by
          have hcount := (h.stored.put (h.index hpc) b q).2
          rw [BitVec.le_def, ← h.stored.count, ← hcount]
          exact Iff.rfl
        have hstep : receivingStep s = some (if s.len ≤ s.i + 1 then (s.put b q).ret else s.put b q) := by
          simp only [receivingStep, hpc, xQueueReceive, hq]
          rfl
        obtain rfl := Option.some.inj (hstep.symm.trans hn)
        by_cases hle : s.len ≤ s.i + 1
        · rw [if_pos hle]
          simp [uart, Receiving.port, Receiving.call, Receiving.result, hpc, bspUartReceiveStep,
            xQueueReceive, hq, hlen.mp hle, Receiving.ret, Receiving.put]
        · rw [if_neg hle]
          simp [uart, Receiving.port, Receiving.call, Receiving.result, hpc, bspUartReceiveStep,
            xQueueReceive, hq, mt hlen.mpr hle, Receiving.put]

/-- So it does along a run. -/
theorem port_run {as : List UartAct} (h : InCall m s) (hr : receiving.Run Lts.any s (as.map .port) t) :
    ∃ d', uart.Run Lts.any (s.port d r) as (t.port d' r) := by
  induction as using List.reverseRecOn generalizing t with
  | nil =>
    obtain rfl : t = s := hr.unique (.nil : receiving.Run Lts.any s [] s)
    exact ⟨d, .nil⟩
  | append_singleton as a ih =>
    rw [List.map_append] at hr
    obtain ⟨u, hr, -, hn⟩ := hr.of_snoc
    obtain ⟨d₁, hr'⟩ := ih hr
    obtain ⟨d', hn'⟩ := port_step d₁ r (hr.inv (fun _ _ _ hi _ hn => hi.step (receiving_step hn)) h) hn
    exact ⟨d', hr'.snoc trivial hn'⟩

end

/-- A call on the port `p` of the system `uart` is this call, with the list of the bytes it removed. -/
theorem uart_simulates {p : Port} {m : Mem Unit Byte} {len timeout : BitVec 32} {as : List UartAct}
    {t : Receiving} (hlog : m.log = [])
    (h : receiving.Run Lts.any (receivingInit p.rxQueue p.tick m len timeout) (as.map .port) t) :
    ∃ d, uart.Run Lts.any (bspUartReceive p len timeout) as (t.port d p.returned) := by
  have hinit : (receivingInit p.rxQueue p.tick m len timeout).port p.delivered p.returned =
      bspUartReceive p len timeout := by
    have hnone : (receivingInit p.rxQueue p.tick m len timeout).result = [] := rfl
    rw [Receiving.port, hnone, List.append_nil]
    rfl
  rw [← hinit]
  exact port_run p.delivered p.returned (inCall_init ⟨_, _, _, _, _, hlog, rfl⟩) h

/-- In every call, whatever comes in between: what it removes is the head of the queue; it has
stored and returned exactly the bytes it removed, `len` at most, if and only if no byte is in the
queue when `xQueueReceive` asks for one that was not asked for (or that an `int` cannot count); and
it returns once `timeout` ticks have passed. -/
theorem receive_iff {s t : Receiving} {as : List ReceivingAct} (hs : receiving.init s)
    (h : receiving.Run Lts.any s as t) :
    (∀ u v, receiving.next u (.port .task) = some v → TakesHead u v) ∧
    (∀ r, t.pc = .returned r → (ExactReceive s.buff t r ↔ receiving.Run Asked s as t)) ∧
    (t.timeout.toNat ≤ ticks as → ticks as < 0x100000000 → Returns t) := by
  refine ⟨fun u v hn => (receiving_step hn).takesHead, fun r hr => ?_, fun hle hlt => ?_⟩
  · refine h.kept_iff (J := InCall s.buff) (I := Counted) (B := fun s => ¬ Counted s) (inCall_init hs) ?_
      ?_ ?_ ?_ ?_ (fun hin hc => (hin.exact_iff hr).mpr hc) fun hin hc => mt (hin.exact_iff hr).mp hc
    · obtain ⟨rxQueue, tick, buff, len, timeout, -, rfl⟩ := hs
      exact ⟨Nat.zero_le _, Nat.two_pow_pos 31⟩
    · exact fun s a t hin _ hn => hin.step (receiving_step hn)
    · exact fun s a t hin hc _ ha hn => hc.step hin ha (receiving_step hn)
    · exact fun s a t hin _ _ ha hn => (receiving_step hn).not_counted hin ha
    · exact fun s a t hin hc _ hn => Step.stays hc hin (receiving_step hn)
  · obtain ⟨htime, -, htick⟩ := run_time h
    have hstart : s.tick = s.time := by
      obtain ⟨rxQueue, tick, buff, len, timeout, -, rfl⟩ := hs
      rfl
    refine returns ?_
    rw [htick, htime, hstart, BitVec.add_comm, BitVec.add_sub_cancel, BitVec.lt_def, BitVec.toNat_ofNat,
      Nat.mod_eq_of_lt hlt]
    exact Nat.not_lt.mpr hle

/-- A call for `len` bytes in the last tick before the tick wraps, with three bytes in the queue. -/
def beforeWrap (len : BitVec 32) : Receiving := receivingInit [7, 8, 9] 0xFFFFFFFF ⟨fun _ _ => 0, []⟩ len 10

theorem beforeWrap_init (len : BitVec 32) : receiving.init (beforeWrap len) := ⟨_, _, _, _, _, rfl, rfl⟩

/-- The tick wraps and a byte arrives between the two bytes. -/
theorem receive_iff_two :
    ∃ t, t.pc = .returned 2 ∧ ExactReceive (beforeWrap 2).buff t 2 := by
  have h := Lts.Run.of_decide receiving Asked (beforeWrap 2)
    [.port .task, .port .task, .port .tick, .port (.rxCb [5]), .port .task, .port .task] (by decide +kernel)
  have hany : receiving.Run Lts.any (beforeWrap 2) _ _ := h.mono fun _ _ _ => trivial
  exact ⟨_, by decide +kernel, ((receive_iff (beforeWrap_init 2) hany).2.1 2 (by decide +kernel)).mpr h⟩

/-- A call for no byte stores one and returns 1. -/
theorem not_receive : ¬ ∀ (s t : Receiving) (as : List ReceivingAct) (r : Int), receiving.init s →
    receiving.Run Lts.any s as t → t.pc = .returned r → ExactReceive s.buff t r := by
  intro h
  have hrun := Lts.Run.any_of_exec receiving (beforeWrap 0) [.port .task, .port .task] (by decide +kernel)
  obtain ⟨k, hle, -, hk, -⟩ := h (beforeWrap 0) _ _ 1 (beforeWrap_init 0) hrun (by decide +kernel)
  have hone : (receiving.exec (fun _ _ => true) (beforeWrap 0)
      [.port .task, .port .task]).1.removed.length = 1 := by decide +kernel
  rw [← hk, hone] at hle
  exact absurd hle (by decide +kernel)

end Rs485.Uart
