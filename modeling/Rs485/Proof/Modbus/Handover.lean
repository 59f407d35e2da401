import Mathlib.Data.List.Flatten
import Rs485.Impl.Modbus.Handover
import Rs485.Proof.Modbus.Assertions

/-!
# Phantom bytes at the handover

`xMBRTUReceiveFSM` drops what `xMBPortSerialGetByte` returns. Where the bridge has taken the
bytes that `mb_uart_rx_task` counted, or the ten ticks are over, it goes on with what its
local variable held. `outcome` is what becomes of a call, by what it finds when it reads;
the calls of a run are those that its steps began (`all_next`), so that what holds of
them holds of these steps (`handover_iff`).
-/

namespace Rs485.Modbus

open Rs485.Framework Rs485.UsbRs485

/-! ## A call -/

/-- What becomes of a call that has got `taken`, and works on `ucByte` in `rcvState`, with the
position `pos`. -/
def outcome (taken : Option UCHAR) (rcvState : MBRcvState) (pos : Nat) (ucByte : UCHAR) : RxCall where
  taken := taken
  appended := if rcvState = .rxIdle ∨ rcvState = .rxRcv ∧ pos < 256 then [ucByte] else []
  changed := rcvState = .rxIdle ∨ rcvState = .rxRcv ∧ ¬ pos < 256

section Case

variable (b : UCHAR) {st : MBRcvState} {s : Slave}

/-- The bytes that the case of `xMBRTUReceiveFSM` stores. -/
theorem stored_rxCase : stored s (rxCase st b s) =
    if st = .rxIdle ∨ st = .rxRcv ∧ s.modbus.usRcvBufferPos < 256 then [b] else [] := by
  cases st with
  | rxInit => simp [rxCase, stored]
  | rxError => simp [rxCase, stored]
  | rxIdle =>
    have hne : (s.store.mem.store s.modbus.ucRTUBuf b).log ≠ s.store.mem.log := List.cons_ne_self _ _
    rw [if_pos (Or.inl rfl), rxCase, stored, if_neg hne]
    exact congrArg (List.cons · []) (if_pos ⟨rfl, rfl⟩)
  | rxRcv =>
    by_cases h : s.modbus.usRcvBufferPos < 256
    · have hne : (s.store.mem.store (s.modbus.ucRTUBuf.add s.modbus.usRcvBufferPos) b).log ≠ s.store.mem.log :=
        List.cons_ne_self _ _
      rw [if_pos (Or.inr ⟨rfl, h⟩), rxCase, if_pos h, stored, if_neg hne]
      exact congrArg (List.cons · []) (if_pos ⟨rfl, rfl⟩)
    · rw [if_neg (by simp [h]), rxCase, if_neg h, stored, if_pos rfl]

/-- Whether it changes the state, which is still the one read, or `STATE_RX_IDLE` since. -/
theorem changed_rxCase (h : s.modbus.rcvState = st ∨ s.modbus.rcvState = .rxIdle) :
    (rxCase st b s).modbus.rcvState ≠ s.modbus.rcvState ↔
      st = .rxIdle ∨ st = .rxRcv ∧ ¬ s.modbus.usRcvBufferPos < 256 := by
  cases st with
  | rxInit => simp [rxCase]
  | rxError => simp [rxCase]
  | rxIdle =>
    have hidle : s.modbus.rcvState = .rxIdle := h.elim id id
    refine iff_of_true ?_ (Or.inl rfl)
    rw [hidle]
    show MBRcvState.rxRcv ≠ .rxIdle
    decide
  | rxRcv =>
    by_cases hpos : s.modbus.usRcvBufferPos < 256
    · rw [rxCase, if_pos hpos]
      simp [hpos]
    · rw [rxCase, if_neg hpos]
      refine iff_of_true ?_ (Or.inr ⟨rfl, hpos⟩)
      rcases h with h | h
      · rw [h]
        show MBRcvState.rxError ≠ .rxRcv
        decide
      · rw [h]
        show MBRcvState.rxError ≠ .rxIdle
        decide

end Case

/-! ## The calls of a run -/

namespace Handover

/-- What becomes of the call that reads next. -/
def reading (s : Handover) (late : Bool) (junk : UCHAR) : RxCall :=
  let taken := (xMBPortSerialGetByte late s.sys.slave.board).1
  outcome taken s.sys.slave.modbus.rcvState s.sys.slave.modbus.usRcvBufferPos (taken.getD junk)

/-- The task is before a call of `xMBRTUReceiveFSM` or the end of the loop. -/
def atRead : TaskPc → Bool
  | .feed _ => true
  | _ => false

/-- The task calls `xMBRTUReceiveFSM` next. -/
def reads : TaskPc → Bool
  | .feed (_ + 1) => true
  | _ => false

/-- The task is inside `xMBRTUReceiveFSM`, before the case. -/
def atCase : TaskPc → Bool
  | .fsm _ _ _ => true
  | _ => false

/-- The task calls `xMBRTUReceiveFSM` next, with the transmitter idle. -/
def Begins (s : Handover) : Prop := reads s.sys.pc = true ∧ s.sys.slave.modbus.sndState = .txIdle

instance (s : Handover) : Decidable s.Begins := inferInstanceAs (Decidable (_ ∧ _))

/-- The call that a step begins. -/
def begun (s : Handover) : HandoverAct → List RxCall
  | .modbus late junk => if s.Begins then [s.reading late junk] else []
  | _ => []

/-- The call that has read and is still at work. -/
def atWork (s : Handover) : List RxCall :=
  match s.sys.pc with
  | .fsm _ rcvState ucByte => [outcome s.got rcvState s.sys.slave.modbus.usRcvBufferPos ucByte]
  | _ => []

/-- The calls that have read. -/
def all (s : Handover) : List RxCall := s.calls ++ s.atWork

/-- The state that a call has read is still there, or T3.5 has expired since. -/
def Fresh (s : Handover) : Prop :=
  ∀ n rcvState ucByte, s.sys.pc = .fsm n rcvState ucByte →
    s.sys.slave.modbus.rcvState = rcvState ∨ s.sys.slave.modbus.rcvState = .rxIdle

section

variable {s t : Handover} {u : Sys} {late : Bool} {junk : UCHAR}

theorem modbus_some (h : s.modbus late junk = some t) :
    ∃ u, Step s.sys (.task late junk) u ∧ t = s.record late u := by
  rw [modbus] at h
  split at h
  · cases h
  · obtain ⟨u, hu, rfl⟩ := Option.map_eq_some_iff.mp h
    exact ⟨u, (Step.of_next (show Modbus.service.next s.sys (.task late junk) = some u from hu)).2, rfl⟩

theorem Begins.pc (h : s.Begins) : ∃ n, s.sys.pc = .feed (n + 1) := by
  obtain ⟨hr, -⟩ := h
  cases hpc : s.sys.pc with
  | feed n =>
    cases n with
    | zero =>
      rw [hpc] at hr
      cases hr
    | succ n => exact ⟨n, rfl⟩
  | _ =>
    rw [hpc] at hr
    cases hr

theorem atWork_eq_nil (h : atCase s.sys.pc = false) : s.atWork = [] := by
  rw [atWork]
  split
  · rename_i hpc
    rw [hpc] at h
    cases h
  · rfl

/-- Where the task is at no byte, nothing is recorded and no call begun. -/
theorem all_other {pc : TaskPc} (hpc : s.sys.pc = pc) (hread : atRead pc = false) (hcase : atCase pc = false)
    (hu : atCase u.pc = false) : (s.record late u).all = s.all ++ s.begun (.modbus late junk) := by
  subst hpc
  have hrec : s.record late u = { s with sys := u } := by
    rw [record]
    split
    · rename_i hpc
      rw [hpc] at hread
      cases hread
    · rename_i hpc
      rw [hpc] at hcase
      cases hcase
    · rfl
  have hbegun : s.begun (.modbus late junk) = [] := by
    refine if_neg fun h => ?_
    obtain ⟨n, hpc⟩ := h.pc
    rw [hpc] at hread
    cases hread
  rw [hrec, hbegun, all, all, atWork_eq_nil hcase, atWork_eq_nil hu, List.append_nil, List.append_nil]

/-- A step of the Modbus task begins a call or leaves the calls as they are. -/
theorem modbus_all (hfresh : s.Fresh) (h : s.modbus late junk = some t) :
    t.all = s.all ++ s.begun (.modbus late junk) := by
  obtain ⟨u, hs, rfl⟩ := modbus_some h
  cases hs with
  | pollNone hpc h => exact all_other hpc rfl rfl rfl
  | pollEvent hpc he hq => exact all_other hpc rfl rfl rfl
  | take hpc => exact all_other hpc rfl rfl rfl
  | receiveFault hpc h => exact all_other hpc rfl rfl (by rw [Sys.fail_pc, hpc]; rfl)
  | receiveAccept hpc hpos h => exact all_other hpc rfl rfl rfl
  | receiveIgnore hpc hpos h vars => exact all_other hpc rfl rfl rfl
  | execute hpc store vars pc hpc' =>
    refine all_other hpc rfl rfl ?_
    rw [hpc']
    split <;> rfl
  | ignore hpc h => exact all_other hpc rfl rfl rfl
  | post hpc => exact all_other hpc rfl rfl rfl
  | replySent hpc h p store vars board hb => exact all_other hpc rfl rfl rfl
  | replyBusy hpc h store vars => exact all_other hpc rfl rfl rfl
  | drain hpc => exact all_other hpc rfl rfl rfl
  | feedDone hpc =>
    have hno : ¬ s.Begins := fun h => by
      obtain ⟨n, hpc'⟩ := h.pc
      cases hpc.symm.trans hpc'
    simp only [record, begun, all, atWork, hpc, if_neg hno, List.append_nil]
  | feed hpc hsnd =>
    have hyes : s.Begins := ⟨by rw [hpc]; rfl, hsnd⟩
    simp only [record, begun, all, atWork, hpc, if_pos hyes, List.append_nil]
    rfl
  | feedFault hpc hsnd =>
    have hno : ¬ s.Begins := fun h => hsnd h.2
    simp only [record, begun, all, atWork, hpc, if_neg hno, Sys.fail_pc, List.append_nil]
  | @fsm _ _ n st b hpc =>
    have hchanged := changed_rxCase b (hfresh _ _ _ hpc)
    have hno : ¬ s.Begins := fun h => by
      obtain ⟨n, hpc'⟩ := h.pc
      cases hpc.symm.trans hpc'
    simp only [record, begun, all, atWork, hpc, if_neg hno, stored_rxCase, List.append_nil, outcome, hchanged]
  | timer hpc => exact all_other hpc rfl rfl rfl

/-- What leaves the task and the position alone leaves the calls alone. -/
theorem all_congr (hpc : t.sys.pc = s.sys.pc)
    (hpos : t.sys.slave.modbus.usRcvBufferPos = s.sys.slave.modbus.usRcvBufferPos) (hgot : t.got = s.got)
    (hcalls : t.calls = s.calls) : t.all = s.all := by
  rw [all, all, atWork, atWork, hpc, hpos, hgot, hcalls]

theorem Fresh.congr (h : s.Fresh) (hpc : t.sys.pc = s.sys.pc)
    (hst : t.sys.slave.modbus.rcvState = s.sys.slave.modbus.rcvState ∨ t.sys.slave.modbus.rcvState = .rxIdle) :
    t.Fresh := by
  intro n st b hfsm
  rcases hst with hst | hst
  · rw [hst]
    exact h n st b (hpc ▸ hfsm)
  · exact Or.inr hst

theorem interrupt_keeps {a : Act} (ha : ∀ late junk, a ≠ .task late junk) (h : s.interrupt a = some t) :
    t.sys.pc = s.sys.pc ∧ t.sys.slave.modbus.usRcvBufferPos = s.sys.slave.modbus.usRcvBufferPos ∧
      t.got = s.got ∧ t.calls = s.calls ∧
      (t.sys.slave.modbus.rcvState = s.sys.slave.modbus.rcvState ∨ t.sys.slave.modbus.rcvState = .rxIdle) := by
  obtain ⟨u, hu, rfl⟩ := Option.map_eq_some_iff.mp h
  have hs := (Step.of_next (show Modbus.service.next s.sys a = some u from hu)).2
  cases a with
  | rx byte =>
    cases hs
    exact ⟨rfl, rfl, rfl, rfl, Or.inl rfl⟩
  | t35 =>
    cases hs with
    | t35Fault h => exact ⟨rfl, rfl, rfl, rfl, Or.inl rfl⟩
    | _ => exact ⟨rfl, rfl, rfl, rfl, Or.inr rfl⟩
  | task late junk => exact absurd rfl (ha late junk)

/-- The bridge leaves all of the Modbus side alone but the queue. -/
theorem bridgeTask_keeps {tudMounted : Bool} (h : s.bridgeTask tudMounted late = some t) :
    t.sys.pc = s.sys.pc ∧ t.sys.slave.modbus = s.sys.slave.modbus ∧ t.got = s.got ∧ t.calls = s.calls := by
  rw [bridgeTask] at h
  split at h
  · split at h
    · cases h
      exact ⟨rfl, rfl, rfl, rfl⟩
    · cases h
      exact ⟨rfl, rfl, rfl, rfl⟩
    · split at h
      · cases h
        exact ⟨rfl, rfl, rfl, rfl⟩
      · split at h
        · cases h
          exact ⟨rfl, rfl, rfl, rfl⟩
        · cases h
          exact ⟨rfl, rfl, rfl, rfl⟩
  · obtain ⟨b, -, rfl⟩ := Option.map_eq_some_iff.mp h
    exact ⟨rfl, rfl, rfl, rfl⟩

theorem record_sys : (s.record late u).sys = u := by
  rw [record]
  split <;> rfl

theorem modbus_fresh (h : s.modbus late junk = some t) : t.Fresh := by
  obtain ⟨u, hs, rfl⟩ := modbus_some h
  intro n st b hfsm
  rw [record_sys] at hfsm ⊢
  cases hs with
  | feed hpc hsnd =>
    cases hfsm
    exact Or.inl rfl
  | receiveFault hpc h => cases hpc.symm.trans hfsm
  | feedFault hpc h => cases hpc.symm.trans hfsm
  | execute hpc store vars pc hpc' =>
    have hfsm : pc = .fsm n st b := hfsm
    rw [hfsm] at hpc'
    split at hpc' <;> cases hpc'
  | _ => cases hfsm

/-! ### The steps -/

/-- The calls of a run are those that its steps began. -/
theorem next_all {a : HandoverAct} (hfresh : s.Fresh) (h : handover.next s a = some t) :
    t.all = s.all ++ s.begun a ∧ t.Fresh := by
  simp only [handover, next] at h
  split at h
  · cases a with
    | modbus late junk => exact ⟨modbus_all hfresh h, modbus_fresh h⟩
    | rx byte =>
      obtain ⟨hpc, hpos, hgot, hcalls, hst⟩ := interrupt_keeps (fun _ _ h => by cases h) h
      exact ⟨(all_congr hpc hpos hgot hcalls).trans (List.append_nil _).symm, hfresh.congr hpc hst⟩
    | t35 =>
      obtain ⟨hpc, hpos, hgot, hcalls, hst⟩ := interrupt_keeps (fun _ _ h => by cases h) h
      exact ⟨(all_congr hpc hpos hgot hcalls).trans (List.append_nil _).symm, hfresh.congr hpc hst⟩
    | enable =>
      cases h
      exact ⟨(List.append_nil _).symm, hfresh⟩
    | disable =>
      cases h
      exact ⟨(List.append_nil _).symm, hfresh⟩
    | bridge tudMounted late =>
      obtain ⟨hpc, hm, hgot, hcalls⟩ := bridgeTask_keeps h
      exact ⟨(all_congr hpc (by rw [hm]) hgot hcalls).trans (List.append_nil _).symm,
        hfresh.congr hpc (Or.inl (by rw [hm]))⟩
  · cases h

/-- Outside of a call, the calls of a run all satisfy `Q` if and only if those satisfy it that
its steps begin. -/
theorem calls_iff {as : List HandoverAct} (Q : RxCall → Prop) (hi : handover.init s)
    (hr : handover.Run Lts.any s as t) (hout : atCase t.sys.pc = false) :
    (∀ c ∈ t.calls, Q c) ↔ handover.Run (fun s a => ∀ c ∈ s.begun a, Q c) s as t := by
  have hpc : s.sys.pc = .poll := (Booted.of_init hi.1).pc
  have hfresh : s.Fresh := fun n st b h => by cases hpc.symm.trans h
  have hnone : s.all = [] := by
    rw [all, hi.2.2.2, atWork_eq_nil (by rw [hpc]; rfl)]
    rfl
  have hall : t.all = t.calls := by
    rw [all, atWork_eq_nil hout, List.append_nil]
  rw [← hall]
  exact hr.history_iff Q hfresh (fun _ _ _ hJ _ hn => (next_all hJ hn).2) (fun _ _ _ hJ hn => (next_all hJ hn).1)
    (by rw [hnone]; exact nofun)

end

end Handover

/-! ## Phantom bytes -/

/-- A call that gets no byte does nothing. -/
def RxCall.Quiet (c : RxCall) : Prop := c.taken = none → c.appended = [] ∧ c.changed = false

/-- The bytes appended are, in order, among those taken, and a call that gets none does nothing. -/
def NoPhantom (calls : List RxCall) : Prop :=
  (calls.flatMap (·.appended)).Sublist (calls.flatMap (·.taken.toList)) ∧ ∀ c ∈ calls, c.Quiet

/-- The bytes appended are, in order, those taken, and a call that gets none does nothing. -/
def Exact (calls : List RxCall) : Prop :=
  calls.flatMap (·.appended) = calls.flatMap (·.taken.toList) ∧ ∀ c ∈ calls, c.Quiet

namespace Handover

/-- A call that stores what it reads finds a byte, and in time. -/
def Supplied (s : Handover) : HandoverAct → Prop
  | .modbus late _ => s.Begins →
    s.sys.slave.modbus.rcvState = .rxIdle ∨ s.sys.slave.modbus.rcvState = .rxRcv →
      late = false ∧ s.sys.slave.board.rxQueue ≠ []
  | _ => True

/-- A call that finds a byte stores it: the receiver is not in `STATE_RX_INIT` or
`STATE_RX_ERROR`, and the buffer not full. -/
def Kept (s : Handover) : HandoverAct → Prop
  | .modbus late _ => s.Begins → late = false → s.sys.slave.board.rxQueue ≠ [] →
    s.sys.slave.modbus.rcvState = .rxIdle ∨
      s.sys.slave.modbus.rcvState = .rxRcv ∧ s.sys.slave.modbus.usRcvBufferPos < 256
  | _ => True

end Handover

section

variable {α β : Type} {f g : α → List β}

/-- Where no piece is longer than its other, the whole is equal only if each piece is. -/
theorem flatMap_eq_iff {xs : List α} (h : ∀ x ∈ xs, (f x).Sublist (g x)) :
    xs.flatMap f = xs.flatMap g ↔ ∀ x ∈ xs, f x = g x := by
  induction xs with
  | nil => exact iff_of_true rfl nofun
  | cons x xs ih =>
    obtain ⟨hx, hxs⟩ := List.forall_mem_cons.mp h
    rw [List.flatMap_cons, List.flatMap_cons, List.forall_mem_cons, ← ih hxs]
    constructor
    · intro heq
      have hlen := congrArg List.length heq
      rw [List.length_append, List.length_append] at hlen
      have hle := hx.length_le
      have hle' := (List.Sublist.flatMap_right xs hxs).length_le
      have hfx : f x = g x := hx.eq_of_length (by omega)
      exact ⟨hfx, List.append_cancel_left (hfx ▸ heq)⟩
    · rintro ⟨hfx, hrest⟩
      rw [hfx, hrest]

end

/-- A call that gets a byte appends this byte, or none. -/
def RxCall.Genuine (c : RxCall) : Prop := ∀ b, c.taken = some b → c.appended = [b] ∨ c.appended = []

/-- A call that gets a byte appends it. -/
def RxCall.Full (c : RxCall) : Prop := ∀ b, c.taken = some b → c.appended = [b]

section

variable {calls : List RxCall}

theorem sublist_taken {c : RxCall} (hg : c.Genuine) (hq : c.Quiet) : c.appended.Sublist c.taken.toList := by
  cases htaken : c.taken with
  | none =>
    rw [(hq htaken).1]
    exact List.nil_sublist _
  | some b =>
    rcases hg b htaken with h | h
    · rw [h]
      exact .refl _
    · rw [h]
      exact List.nil_sublist _

theorem noPhantom_iff (hg : ∀ c ∈ calls, c.Genuine) : NoPhantom calls ↔ ∀ c ∈ calls, c.Quiet :=
  ⟨And.right, fun hq => ⟨List.Sublist.flatMap_right calls fun c hc => sublist_taken (hg c hc) (hq c hc), hq⟩⟩

theorem exact_iff (hg : ∀ c ∈ calls, c.Genuine) : Exact calls ↔ ∀ c ∈ calls, c.Quiet ∧ c.Full := by
  rw [Exact, ← and_comm]
  constructor
  · rintro ⟨hq, heq⟩ c hc
    have heach := (flatMap_eq_iff fun c hc => sublist_taken (hg c hc) (hq c hc)).mp heq c hc
    exact ⟨hq c hc, fun b hb => by rw [heach, hb]; rfl⟩
  · intro h
    have hq : ∀ c ∈ calls, c.Quiet := fun c hc => (h c hc).1
    refine ⟨hq, (flatMap_eq_iff fun c hc => sublist_taken (hg c hc) (hq c hc)).mpr fun c hc => ?_⟩
    cases htaken : c.taken with
    | none => exact (hq c hc htaken).1
    | some b => exact (h c hc).2 b htaken

end

section

variable (taken : Option UCHAR) (st : MBRcvState) (pos : Nat) (b junk : UCHAR)

theorem outcome_quiet : (outcome taken st pos b).Quiet ↔ (taken = none → ¬ (st = .rxIdle ∨ st = .rxRcv)) := by
  refine imp_congr_right fun _ => ?_
  by_cases hpos : pos < 256
  · cases st <;> simp [outcome, hpos]
  · cases st <;> simp [outcome, hpos]

theorem outcome_full : (outcome taken st pos (taken.getD junk)).Full ↔
    (taken ≠ none → st = .rxIdle ∨ st = .rxRcv ∧ pos < 256) := by
  cases taken with
  | none => exact iff_of_true nofun fun h => absurd rfl h
  | some b =>
    rw [forall_prop_of_true (Option.some_ne_none b)]
    constructor
    · intro h
      have happ : (outcome (some b) st pos b).appended = [b] := h b rfl
      by_contra hst
      rw [outcome, if_neg hst] at happ
      cases happ
    · rintro hst c ⟨⟩
      exact if_pos hst

end

/-- There is no byte to read, or the ten ticks are over. -/
theorem getByte_eq_none (late : Bool) (b : Board) :
    (xMBPortSerialGetByte late b).1 = none ↔ ¬ (late = false ∧ b.rxQueue ≠ []) := by
  cases late <;> cases h : b.rxQueue <;> simp [xMBPortSerialGetByte, h]

namespace Handover

section

variable (s : Handover) (late : Bool) (junk : UCHAR)

theorem reading_genuine : (s.reading late junk).Genuine := by
  intro b hb
  have hb : (xMBPortSerialGetByte late s.sys.slave.board).1 = some b := hb
  rw [reading, outcome, hb]
  split
  · exact Or.inl rfl
  · exact Or.inr rfl

theorem reading_quiet : (s.reading late junk).Quiet ↔
    (s.sys.slave.modbus.rcvState = .rxIdle ∨ s.sys.slave.modbus.rcvState = .rxRcv →
      late = false ∧ s.sys.slave.board.rxQueue ≠ []) := by
  rw [reading, outcome_quiet, getByte_eq_none, not_imp_not]

theorem reading_full : (s.reading late junk).Full ↔
    (late = false → s.sys.slave.board.rxQueue ≠ [] → s.sys.slave.modbus.rcvState = .rxIdle ∨
      s.sys.slave.modbus.rcvState = .rxRcv ∧ s.sys.slave.modbus.usRcvBufferPos < 256) := by
  rw [reading, outcome_full, ne_eq, getByte_eq_none, not_not, and_imp]

/-- The call that a step begins, if it begins one. -/
theorem begun_iff (a : HandoverAct) (Q : RxCall → Prop) : (∀ c ∈ s.begun a, Q c) ↔
    ∀ late junk, a = .modbus late junk → s.Begins → Q (s.reading late junk) := by
  cases a with
  | modbus late junk =>
    rw [begun]
    split
    · rename_i h
      rw [List.forall_mem_singleton]
      exact ⟨fun hq _ _ ha _ => by cases ha; exact hq, fun hq => hq _ _ rfl h⟩
    · rename_i h
      exact iff_of_true nofun fun _ _ _ hb => absurd hb h
  | _ => exact iff_of_true nofun fun _ _ ha => by cases ha

theorem supplied_iff (a : HandoverAct) : (∀ c ∈ s.begun a, c.Quiet) ↔ s.Supplied a := by
  rw [begun_iff]
  cases a with
  | modbus late junk =>
    refine ⟨fun h hb => (reading_quiet s late junk).mp (h _ _ rfl hb), fun h late' junk' ha hb => ?_⟩
    cases ha
    exact (reading_quiet s late junk).mpr (h hb)
  | _ => exact iff_of_true (fun _ _ ha => by cases ha) trivial

theorem kept_iff (a : HandoverAct) :
    (∀ c ∈ s.begun a, c.Quiet ∧ c.Full) ↔ s.Supplied a ∧ s.Kept a := by
  rw [forall₂_and, supplied_iff, begun_iff]
  refine and_congr_right fun _ => ?_
  cases a with
  | modbus late junk =>
    refine ⟨fun h hb => (reading_full s late junk).mp (h _ _ rfl hb), fun h late' junk' ha hb => ?_⟩
    cases ha
    exact (reading_full s late junk).mpr (h hb)
  | _ => exact iff_of_true (fun _ _ ha => by cases ha) trivial

end

end Handover

/-- After a run that ends outside of a call, there was no phantom byte if and only if every call
that stores what it reads found a byte; and the bytes appended are just those taken if and
only if, besides, no call dropped one. -/
theorem handover_iff (s t : Handover) (as : List HandoverAct) (hi : handover.init s)
    (hr : handover.Run Lts.any s as t) (hout : Handover.atCase t.sys.pc = false) :
    (NoPhantom t.calls ↔ handover.Run Handover.Supplied s as t) ∧
      (Exact t.calls ↔ handover.Run (fun s a => s.Supplied a ∧ s.Kept a) s as t) := by
  have hg : ∀ c ∈ t.calls, c.Genuine := (Handover.calls_iff _ hi hr hout).mpr <| hr.mono fun s a _ =>
    (s.begun_iff a _).mpr fun late junk _ _ => s.reading_genuine late junk
  rw [noPhantom_iff hg, exact_iff hg, Handover.calls_iff _ hi hr hout, Handover.calls_iff _ hi hr hout]
  constructor
  · exact ⟨fun h => h.mono fun s a => (s.supplied_iff a).mp, fun h => h.mono fun s a => (s.supplied_iff a).mpr⟩
  · exact ⟨fun h => h.mono fun s a => (s.kept_iff a).mp, fun h => h.mono fun s a => (s.kept_iff a).mpr⟩

/-- The service started, with the bridge disabled. -/
def handoverStart : Handover where
  sys := start
  bridge := ⟨.init, .mounted⟩
  rxAvail := none
  got := none
  calls := []

theorem handoverStart_init : handover.init handoverStart := ⟨start_init, rfl, rfl, rfl⟩

/-- The Modbus task runs on `n` times. -/
def modbusTasks (n : Nat) : List HandoverAct := List.replicate n (.modbus false 0x55)

/-- After the first T3.5, two bytes are received and the first of them is read. -/
def firstRead : List HandoverAct := [.t35] ++ modbusTasks 3 ++ [.rx 0x02, .rx 0x01] ++ modbusTasks 4

/-- The bridge is enabled, makes `n` steps, and is disabled. -/
def bridged (n : Nat) : List HandoverAct := [.enable] ++ List.replicate n (.bridge true false) ++ [.disable]

/-- The bridge is disabled before it comes to a transfer, and the second byte is read. -/
theorem handover_iff_bridged :
    let t := (handover.exec (fun _ _ => true) handoverStart (firstRead ++ bridged 1 ++ modbusTasks 3)).1
    (NoPhantom t.calls ↔
      handover.Run Handover.Supplied handoverStart (firstRead ++ bridged 1 ++ modbusTasks 3) t) ∧
    (Exact t.calls ↔ handover.Run (fun s a => s.Supplied a ∧ s.Kept a) handoverStart
      (firstRead ++ bridged 1 ++ modbusTasks 3) t) := by
  have hr := Lts.Run.any_of_exec handover handoverStart (firstRead ++ bridged 1 ++ modbusTasks 3)
    (by decide +kernel)
  exact handover_iff _ _ _ handoverStart_init hr (by decide +kernel)

/-- The bridge takes the second byte. The Modbus task gets none, and appends what its local
variable held. -/
theorem not_handover :
    (¬ ∀ (s t : Handover) (as : List HandoverAct), handover.init s → handover.Run Lts.any s as t →
      Handover.atCase t.sys.pc = false → NoPhantom t.calls) ∧
    ¬ ∀ (s t : Handover) (as : List HandoverAct), handover.init s → handover.Run Lts.any s as t →
      Handover.atCase t.sys.pc = false → Exact t.calls := by
  have hr := Lts.Run.any_of_exec handover handoverStart (firstRead ++ bridged 6 ++ modbusTasks 3)
    (by decide +kernel)
  have hcalls : (handover.exec (fun _ _ => true) handoverStart (firstRead ++ bridged 6 ++ modbusTasks 3)).1.calls =
      [⟨some 0x01, [0x01], true⟩, ⟨none, [0x55], false⟩] := by decide +kernel
  have hquiet (h : ∀ c ∈ [RxCall.mk (some 0x01) [0x01] true, ⟨none, [0x55], false⟩], c.Quiet) : False := by
    cases (h ⟨none, [0x55], false⟩ (by decide) rfl).1
  refine ⟨fun h => ?_, fun h => ?_⟩
  · have hbad := h _ _ _ handoverStart_init hr (by decide +kernel)
    rw [hcalls] at hbad
    exact hquiet hbad.2
  · have hbad := h _ _ _ handoverStart_init hr (by decide +kernel)
    rw [hcalls] at hbad
    exact hquiet hbad.2

end Rs485.Modbus
