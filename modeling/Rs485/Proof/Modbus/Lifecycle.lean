import Rs485.Impl.Modbus.Lifecycle

/-!
# The lifecycle of an instance

`eMBInit` publishes its block in `modbus->handle` before it has checked anything, and frees
it where a check fails: the other calls then use a block that was freed. Where `malloc` has
no block, the handle is what it was. So all depends on the last `eMBInit` that got its
block (`lastInit`): `Published` is the invariant of all runs, and the calls are as they should be
(`LifecycleOk`) in the runs in which the other calls come while that `eMBInit` was a good one
(`lifecycle_iff`).
-/

namespace Rs485.Modbus

open Rs485.Framework

/-! ## The calls of a handle -/

section Call

variable {F : FrameFuncs} {c : UseCall} {st : MBState} {v : PollVars} {s : Slave} {o : Returned}

/-- `eMBPoll` of an instance is `eMBPollIn` with the functions of the RTU mode. -/
theorem eMBPollIn_rtu (v : PollVars) (s : Slave) :
    (eMBPollIn rtuFuncs s.modbus.eMBState v s).map (fun o => (o.eStatus, o.vars, o.slave)) = eMBPoll v s := by
  unfold eMBPollIn eMBPoll
  split
  · rfl
  · generalize xMBPortEventGet s.modbus = r
    obtain ⟨e, m⟩ := r
    rcases e with _ | e
    · rfl
    · cases e with
      | evReady => rfl
      | evFrameSent => rfl
      | evFrameReceived =>
        simp only [pollSwitch, pollReceive, rtuFuncs]
        cases eMBRTUReceive { s with modbus := m } with
        | error a => rfl
        | ok r =>
          obtain ⟨frame, u⟩ := r
          rcases frame with _ | ⟨ucRcvAddress, ucMBFrame, usLength⟩
          · rfl
          · simp only [bind, Except.bind, pure, Except.pure, decide_eq_true_eq]
            by_cases h : ucRcvAddress = u.modbus.ucMBAddress ∨ ucRcvAddress = mbAddressBroadcast
            · rw [if_pos h, if_pos h]
              rfl
            · rw [if_neg h, if_neg h]
              rfl
      | evExecute =>
        simp only [pollSwitch, pollExecuteReply, pollReply, rtuFuncs]
        split
        · generalize call (errorFrame _) _ = w
          generalize eMBRTUSend _ _ _ _ = x
          cases x with
          | error a => rfl
          | ok r => rfl
        · rfl

/-- What a call makes of the state of its handle: only `eMBEnable` enables, and events are
handled in `STATE_ENABLED` alone. -/
structure UseCall.Spec (c : UseCall) (st : MBState) (o : Returned) : Prop where
  state : o.eMBState = st ∨ o.eMBState = .disabled ∨ o.eMBState = .enabled ∧ c = .eMBEnable
  event : o.event ≠ none → st = .enabled

theorem eMBEnable_spec (h : eMBEnable F st v s = .ok o) : UseCall.Spec .eMBEnable st o := by
  unfold eMBEnable at h
  split at h
  · obtain ⟨t, -, ht⟩ := bind_ok h
    cases ht
    exact ⟨Or.inr (Or.inr ⟨rfl, rfl⟩), fun h => absurd rfl h⟩
  · cases h
    exact ⟨Or.inl rfl, fun h => absurd rfl h⟩

theorem eMBDisable_spec (h : eMBDisable F st v s = .ok o) : UseCall.Spec .eMBDisable st o := by
  unfold eMBDisable at h
  split at h
  · obtain ⟨t, -, ht⟩ := bind_ok h
    cases ht
    exact ⟨Or.inr (Or.inl rfl), fun h => absurd rfl h⟩
  · split at h
    · cases h
      exact ⟨Or.inl rfl, fun h => absurd rfl h⟩
    · cases h
      exact ⟨Or.inl rfl, fun h => absurd rfl h⟩

theorem eMBPollIn_spec (h : eMBPollIn F st v s = .ok o) : UseCall.Spec .eMBPoll st o := by
  unfold eMBPollIn at h
  split at h
  · cases h
    exact ⟨Or.inl rfl, fun h => absurd rfl h⟩
  · rename_i hst
    refine ⟨Or.inl ?_, fun _ => not_not.mp hst⟩
    simp only at h
    split at h
    · obtain ⟨r, -, hr⟩ := bind_ok h
      cases hr
      rfl
    · cases h
      rfl

theorem eMBClose_spec (h : eMBClose st v s = .ok o) : UseCall.Spec .eMBClose st o := by
  unfold eMBClose at h
  split at h
  · cases h
    exact ⟨Or.inl rfl, fun h => absurd rfl h⟩
  · cases h
    exact ⟨Or.inl rfl, fun h => absurd rfl h⟩

theorem UseCall.run_spec (h : c.run F st v s = .ok o) : c.Spec st o := by
  cases c with
  | eMBEnable => exact eMBEnable_spec h
  | eMBDisable => exact eMBDisable_spec h
  | eMBPoll => exact eMBPollIn_spec h
  | eMBClose => exact eMBClose_spec h

end Call

/-! ## What is recorded -/

/-- An `eMBInit` has succeeded. -/
def Initialized (log : List Done) : Prop := ∃ d ∈ log, (∃ a, d.call = .init a) ∧ d.eStatus = .enoerr

/-- The last call that succeeded and changed the state was `eMBEnable`. -/
def LastEnabled (log : List Done) : Prop := ∃ d, log.find? (·.changed) = some d ∧ d.call = .use .eMBEnable

/-- What is asked of a call that came back, behind the calls `before`. -/
structure EntryOk (d : Done) (before : List Done) : Prop where
  illstate : ∀ c, d.call = .use c → ¬ Initialized before → d.eStatus = .eillstate ∧ d.frames = []
  enabled : d.event ≠ none → LastEnabled before

/-- What is asked of the calls of a run: none uses a freed block; before an `eMBInit` has
succeeded every other call comes back, with `MB_EILLSTATE` and without a frame callback; and
`eMBPoll` handles an event only if the last change was by `eMBEnable`. -/
structure LifecycleOk (s : Stack) : Prop where
  live : s.fault ≠ some .freed
  back : ¬ Initialized s.log → s.fault = none
  entries : ∀ after d before, s.log = after ++ d :: before → EntryOk d before

/-- The arguments of the last `eMBInit` that got its block. -/
def lastInit : List Done → Option InitArgs
  | [] => none
  | d :: log =>
    match d.call with
    | .init a => if a.malloc then some a else lastInit log
    | .use _ => lastInit log

/-- The address is that of a slave, the mode is there, and the initialisations succeed. -/
structure InitArgs.Valid (a : InitArgs) : Prop where
  min : 1 ≤ a.ucSlaveAddress.toNat
  max : a.ucSlaveAddress.toNat ≤ 247
  eMode : a.eMode ≠ .tcp
  frameInit : a.frameInit = .enoerr
  eventInit : a.eventInit = true

theorem initStatus_iff (a : InitArgs) : Stack.initStatus a = .enoerr ↔ a.Valid := by
  have haddr : (a.ucSlaveAddress = 0 ∨ a.ucSlaveAddress < 1 ∨ a.ucSlaveAddress > 247) ↔
      ¬ (1 ≤ a.ucSlaveAddress.toNat ∧ a.ucSlaveAddress.toNat ≤ 247) := by
    constructor
    · rintro (h | h | h) <;> bv_omega
    · intro h
      bv_omega
  unfold Stack.initStatus
  split
  · rename_i h
    exact iff_of_false nofun fun hv => haddr.mp h ⟨hv.min, hv.max⟩
  · rename_i h
    obtain ⟨hmin, hmax⟩ := not_not.mp fun hn => h (haddr.mpr hn)
    split
    · rename_i hm
      exact iff_of_false nofun fun hv => hv.eMode hm
    · rename_i hm
      split
      · rename_i hf
        split
        · rename_i he
          exact iff_of_true rfl ⟨hmin, hmax, hm, hf, he⟩
        · rename_i he
          exact iff_of_false nofun fun hv => he hv.eventInit
      · rename_i hf
        exact iff_of_false hf fun hv => hf hv.frameInit

instance InitArgs.decidableValid (a : InitArgs) : Decidable a.Valid := decidable_of_iff _ (initStatus_iff a)

section Log

variable {d : Done} {log : List Done}

theorem Initialized.cons (h : Initialized log) : Initialized (d :: log) := by
  obtain ⟨e, he, hi⟩ := h
  exact ⟨e, List.mem_cons_of_mem _ he, hi⟩

theorem not_initialized_cons (h : ¬ Initialized log) (hd : ∀ a, d.call = .init a → d.eStatus ≠ .enoerr) :
    ¬ Initialized (d :: log) := by
  rintro ⟨e, he, ⟨a, hc⟩, hs⟩
  rcases List.mem_cons.mp he with rfl | he
  · exact hd a hc hs
  · exact h ⟨e, he, ⟨a, hc⟩, hs⟩

theorem LastEnabled.cons (h : LastEnabled log) (hd : d.changed = false) : LastEnabled (d :: log) := by
  obtain ⟨e, he, hc⟩ := h
  exact ⟨e, by rw [List.find?_cons_of_neg (by simp [hd]), he], hc⟩

theorem LastEnabled.of_changed (hd : d.changed = true) (hc : d.call = .use .eMBEnable) : LastEnabled (d :: log) :=
  ⟨d, List.find?_cons_of_pos hd, hc⟩

theorem lastInit_use {c : UseCall} (h : d.call = .use c) : lastInit (d :: log) = lastInit log := by
  rw [lastInit, h]

/-- Nothing is asked of an `eMBInit`. -/
theorem EntryOk.of_init {a : InitArgs} (hc : d.call = .init a) (he : d.event = none) : EntryOk d log where
  illstate c h := by cases hc.symm.trans h
  enabled h := absurd he h

/-- A call on top of the log leaves those before it. -/
theorem entries_cons (hd : EntryOk d log) (h : ∀ after e before, log = after ++ e :: before → EntryOk e before) :
    ∀ after e before, d :: log = after ++ e :: before → EntryOk e before := by
  intro after e before heq
  cases after with
  | nil =>
    obtain ⟨rfl, rfl⟩ := List.cons.inj heq
    exact hd
  | cons a after => exact h after e before (List.cons.inj heq).2

end Log

/-! ## The handle -/

namespace Stack

/-- What `modbus->handle` is, by the last `eMBInit` that got its block. -/
inductive Published (s : Stack) : Prop
  | never (hlast : lastInit s.log = none) (hinit : ¬ Initialized s.log) (hhandle : s.handle = none)
  | dangling {a : InitArgs} {i : Nat} (hlast : lastInit s.log = some a) (hvalid : ¬ a.Valid)
    (hhandle : s.handle = some i) (hblock : s.heap.getD i none = none)
  | live {a : InitArgs} {i : Nat} {h : Handle} (hlast : lastInit s.log = some a) (hvalid : a.Valid)
    (hinit : Initialized s.log) (hhandle : s.handle = some i) (hblock : s.heap.getD i none = some h)
    (hstate : h.eMBState = .disabled ∨ h.eMBState = .enabled ∧ LastEnabled s.log)

/-- The invariant of all runs. -/
structure Inv (s : Stack) : Prop where
  published : s.Published
  entries : ∀ after d before, s.log = after ++ d :: before → EntryOk d before

/-- The first call is an `eMBInit`. -/
def StartsInit (s : Stack) : LifeAct → Prop
  | .call (.use _) => s.log ≠ []
  | _ => True

/-- A call comes while the last `eMBInit` that got its block was a good one. -/
def AfterInit (s : Stack) : LifeAct → Prop
  | .call (.use _) => ∃ a, lastInit s.log = some a ∧ a.Valid
  | _ => True

instance (s : Stack) (a : LifeAct) : Decidable (s.StartsInit a) :=
  match a with
  | .call (.use _) => inferInstanceAs (Decidable (s.log ≠ []))
  | .call (.init _) => .isTrue trivial
  | .between _ => .isTrue trivial

instance (s : Stack) (a : LifeAct) : Decidable (s.AfterInit a) :=
  match a with
  | .call (.use _) =>
    match h : lastInit s.log with
    | some a =>
      decidable_of_iff a.Valid
        ⟨fun hv => ⟨a, h, hv⟩, fun ⟨_, h', hv⟩ => Option.some.inj (h.symm.trans h') ▸ hv⟩
    | none => .isFalse fun ⟨_, h', _⟩ => by cases h.symm.trans h'
  | .call (.init _) => .isTrue trivial
  | .between _ => .isTrue trivial

section

variable {F : MBMode → FrameFuncs} {s t : Stack} {a : InitArgs} {c : UseCall} {i : Nat}

/-- An `eMBInit` without a block leaves all as it was. -/
theorem eMBInit_null (h : a.malloc = false) :
    s.eMBInit F a = { s with log := ⟨.init a, .einval, [], none, false⟩ :: s.log } := by
  rw [eMBInit, h]
  rfl

/-- An `eMBInit` with a block publishes it. -/
theorem eMBInit_block (h : a.malloc = true) :
    s.eMBInit F a =
      { s with
        slave.modbus := initModbus (F a.eMode) a s.slave.modbus
        handle := some s.heap.length
        heap := s.heap ++ [if initStatus a = .enoerr then some ⟨.disabled, a.eMode⟩ else none]
        log := ⟨.init a, initStatus a, [], none, decide (initStatus a = .enoerr)⟩ :: s.log } :=
  if_pos h

theorem use_null (h : s.handle = none) : s.use F c = { s with fault := some .null } := by
  rw [use, h]

theorem use_freed (hh : s.handle = some i) (hb : s.heap.getD i none = none) :
    s.use F c = { s with fault := some .freed } := by
  simp only [use, hh, hb]

/-- A call of a live handle fails an assertion, or comes back with what it makes of the state. -/
theorem use_live {h : Handle} (hh : s.handle = some i) (hb : s.heap.getD i none = some h) :
    (∃ e, s.use F c = { s with fault := some (.assertion e) }) ∨
      ∃ o, c.Spec h.eMBState o ∧ s.use F c =
        { s with
          slave := o.slave
          vars := o.vars
          heap := s.heap.set i (some { h with eMBState := o.eMBState })
          log := ⟨.use c, o.eStatus, o.frames, o.event, decide (o.eMBState ≠ h.eMBState)⟩ :: s.log } := by
  cases hr : c.run (F h.eMBCurrentMode) h.eMBState s.vars s.slave with
  | error e => exact Or.inl ⟨e, by simp only [use, hh, hb, hr]⟩
  | ok o => exact Or.inr ⟨o, c.run_spec hr, by simp only [use, hh, hb, hr]⟩

/-- An `eMBInit` keeps the invariant. -/
theorem Inv.eMBInit (h : s.Inv) : (s.eMBInit F a).Inv := by
  obtain ⟨hp, he⟩ := h
  cases hm : a.malloc with
  | false =>
    rw [eMBInit_null hm]
    refine ⟨?_, entries_cons (.of_init rfl rfl) he⟩
    have hlast : lastInit (⟨.init a, .einval, [], none, false⟩ :: s.log) = lastInit s.log := by
      show (if a.malloc then some a else lastInit s.log) = _
      rw [hm]
      rfl
    cases hp with
    | never hl hi hh => exact .never (hlast.trans hl) (not_initialized_cons hi fun _ _ => nofun) hh
    | dangling hl hv hh hb => exact .dangling (hlast.trans hl) hv hh hb
    | live hl hv hi hh hb hs =>
      exact .live (hlast.trans hl) hv hi.cons hh hb (hs.imp id fun hs => ⟨hs.1, hs.2.cons rfl⟩)
  | true =>
    rw [eMBInit_block hm]
    refine ⟨?_, entries_cons (.of_init rfl rfl) he⟩
    have hlast (e : MBErrorCode) (b : Bool) : lastInit (⟨.init a, e, [], none, b⟩ :: s.log) = some a := if_pos hm
    have hblock (x : Option Handle) : (s.heap ++ [x]).getD s.heap.length none = x := by
      simp [List.getD_eq_getElem?_getD]
    by_cases hv : a.Valid
    · have hst := (initStatus_iff a).mpr hv
      rw [hst]
      exact .live (hlast _ _) hv ⟨_, List.mem_cons_self, ⟨a, rfl⟩, rfl⟩ rfl (hblock _) (Or.inl rfl)
    · have hst : initStatus a ≠ .enoerr := fun h => hv ((initStatus_iff a).mp h)
      rw [if_neg hst]
      exact .dangling (hlast _ _) hv rfl (hblock _)

/-- The invariant is about the log, the handle and the heap. -/
theorem Inv.congr (h : s.Inv) (hlog : t.log = s.log) (hhandle : t.handle = s.handle) (hheap : t.heap = s.heap) :
    t.Inv := by
  obtain ⟨hp, he⟩ := h
  rw [← hlog] at he
  refine ⟨?_, he⟩
  cases hp with
  | never hl hi hh => exact .never (hlog ▸ hl) (hlog ▸ hi) (hhandle.trans hh)
  | dangling hl hv hh hb => exact .dangling (hlog ▸ hl) hv (hhandle.trans hh) (hheap ▸ hb)
  | live hl hv hi hh hb hs => exact .live (hlog ▸ hl) hv (hlog ▸ hi) (hhandle.trans hh) (hheap ▸ hb) (hlog ▸ hs)

/-- A call that uses the handle keeps the invariant. -/
theorem Inv.use (h : s.Inv) : (s.use F c).Inv := by
  cases h.published with
  | never hl hi hh =>
    rw [use_null hh]
    exact h.congr rfl rfl rfl
  | dangling hl hv hh hb =>
    rw [use_freed hh hb]
    exact h.congr rfl rfl rfl
  | @live a i hd hl hv hi hh hb hs =>
    rcases use_live (F := F) (c := c) hh hb with ⟨e, heq⟩ | ⟨o, ⟨hstate, hevent⟩, heq⟩
    · rw [heq]
      exact h.congr rfl rfl rfl
    · rw [heq]
      have hlen : i < s.heap.length := by
        by_contra hge
        rw [List.getD_eq_getElem?_getD, List.getElem?_eq_none (by omega)] at hb
        cases hb
      have hset (x : Option Handle) : (s.heap.set i x).getD i none = x := by
        simp [List.getD_eq_getElem?_getD, hlen]
      refine ⟨.live ((lastInit_use rfl).trans hl) hv hi.cons hh (hset _) ?_, entries_cons ⟨?_, ?_⟩ h.entries⟩
      · by_cases hsame : o.eMBState = hd.eMBState
        · show o.eMBState = .disabled ∨ o.eMBState = .enabled ∧ _
          rw [hsame]
          exact hs.imp id fun hs => ⟨hs.1, hs.2.cons (decide_eq_false fun h => h rfl)⟩
        · rcases hstate with h | h | ⟨h, hc⟩
          · exact absurd h hsame
          · exact Or.inl h
          · exact Or.inr ⟨h, .of_changed (decide_eq_true hsame) (congrArg LifeCall.use hc)⟩
      · exact fun _ _ hno => absurd hi hno
      · intro hne
        rcases hs with hs | hs
        · cases hs.symm.trans (hevent hne)
        · exact hs.2

/-- A call behind a good `eMBInit` comes back or fails an assertion. -/
theorem Inv.use_after (h : s.Inv) (hf : s.fault = none) (ha : s.AfterInit (.call (.use c))) :
    (s.use F c).fault = none ∨ (∃ e, (s.use F c).fault = some (.assertion e)) ∧ Initialized (s.use F c).log := by
  obtain ⟨a, hla, hva⟩ := ha
  cases h.published with
  | never hl hi hh => cases hl.symm.trans hla
  | dangling hl hv hh hb =>
    cases hl.symm.trans hla
    exact absurd hva hv
  | live hl hv hi hh hb hs =>
    rcases use_live (F := F) (c := c) hh hb with ⟨e, heq⟩ | ⟨o, -, heq⟩
    · rw [heq]
      exact Or.inr ⟨⟨e, rfl⟩, hi⟩
    · rw [heq]
      exact Or.inl hf

/-- Any other uses NULL, where no `eMBInit` had its block, or a block that was freed. -/
theorem Inv.use_before (h : s.Inv) (ha : ¬ s.AfterInit (.call (.use c))) :
    (s.use F c).fault = some .freed ∨ (s.use F c).fault = some .null ∧ ¬ Initialized (s.use F c).log := by
  cases h.published with
  | never hl hi hh =>
    rw [use_null hh]
    exact Or.inr ⟨rfl, hi⟩
  | dangling hl hv hh hb =>
    rw [use_freed hh hb]
    exact Or.inl rfl
  | live hl hv hi hh hb hs => exact absurd ⟨_, hl, hv⟩ ha

end

end Stack

/-! ## The runs -/

section Runs

variable {F : MBMode → FrameFuncs} {s t : Stack}

theorem next_lifecycle {a : LifeAct} (h : (lifecycle F).next s a = some t) :
    s.fault = none ∧
      ((∃ args, a = .call (.init args) ∧ t = s.eMBInit F args) ∨ (∃ c, a = .call (.use c) ∧ t = s.use F c) ∨
        ∃ slave, a = .between slave ∧ t = { s with slave := slave }) := by
  simp only [lifecycle] at h
  split at h
  · rename_i hf
    refine ⟨hf, ?_⟩
    cases a with
    | call c =>
      cases c with
      | init args => exact Or.inl ⟨args, rfl, (Option.some.inj h).symm⟩
      | use c => exact Or.inr (Or.inl ⟨c, rfl, (Option.some.inj h).symm⟩)
    | between slave => exact Or.inr (Or.inr ⟨slave, rfl, (Option.some.inj h).symm⟩)
  · cases h

theorem Stack.Inv.of_init (h : (lifecycle F).init s) : s.Inv := by
  obtain ⟨hh, -, -, hlog⟩ := h
  refine ⟨.never (by rw [hlog]; rfl) (by rw [hlog]; exact fun ⟨_, h, _⟩ => by cases h) hh, ?_⟩
  rw [hlog]
  intro after d before heq
  cases after <;> cases heq

theorem Stack.Inv.step {a : LifeAct} (h : s.Inv) (hn : (lifecycle F).next s a = some t) : t.Inv := by
  obtain ⟨-, ⟨args, -, rfl⟩ | ⟨c, -, rfl⟩ | ⟨slave, -, rfl⟩⟩ := next_lifecycle hn
  · exact h.eMBInit
  · exact h.use
  · exact h.congr rfl rfl rfl

/-- In a sequence that starts with an `eMBInit`, the calls are as they should be if and only if every
other call comes while the last `eMBInit` that got its block was a good one. -/
theorem lifecycle_iff {as : List LifeAct} (hi : (lifecycle F).init s) (hr : (lifecycle F).Run Stack.StartsInit s as t) :
    LifecycleOk t ↔ (lifecycle F).Run Stack.AfterInit s as t := by
  refine hr.kept_iff (J := Stack.Inv)
    (I := fun s => s.fault = none ∨ (∃ e, s.fault = some (.assertion e)) ∧ Initialized s.log)
    (B := fun s => s.fault = some .freed ∨ s.fault = some .null ∧ ¬ Initialized s.log)
    (.of_init hi) (Or.inl hi.2.2.1) (fun _ _ _ hJ _ hn => hJ.step hn) ?_ ?_ ?_ ?_ ?_
  · intro s a t hJ _ _ ha hn
    obtain ⟨hf, ⟨args, rfl, rfl⟩ | ⟨c, rfl, rfl⟩ | ⟨slave, rfl, rfl⟩⟩ := next_lifecycle hn
    · refine Or.inl ?_
      rw [Stack.eMBInit]
      split
      · exact hf
      · exact hf
    · exact hJ.use_after hf ha
    · exact Or.inl hf
  · intro s a t hJ _ _ ha hn
    obtain ⟨-, ⟨args, rfl, rfl⟩ | ⟨c, rfl, rfl⟩ | ⟨slave, rfl, rfl⟩⟩ := next_lifecycle hn
    · exact absurd trivial ha
    · exact hJ.use_before ha
    · exact absurd trivial ha
  · intro s a t _ hB _ hn
    obtain ⟨hf, -⟩ := next_lifecycle hn
    rcases hB with h | ⟨h, -⟩
    · cases hf.symm.trans h
    · cases hf.symm.trans h
  · rintro hJ (hf | ⟨⟨e, hf⟩, hinit⟩)
    · exact ⟨by rw [hf]; exact nofun, fun _ => hf, hJ.entries⟩
    · exact ⟨by rw [hf]; exact nofun, fun hno => absurd hinit hno, hJ.entries⟩
  · rintro - (hf | ⟨hf, hno⟩) hok
    · exact hok.live hf
    · cases (hok.back hno).symm.trans hf

end Runs

/-- The instance at reset. -/
def Stack.reset : Stack where
  slave := Slave.reset 0x20000000
  vars := .reset
  handle := none
  heap := []
  fault := none
  log := []

/-- The RTU mode for slave `ucSlaveAddress`, as `modbus_service_init` asks for it. -/
def rtuArgs (ucSlaveAddress : UCHAR) : InitArgs where
  malloc := true
  eMode := .rtu
  ucSlaveAddress := ucSlaveAddress
  ucPort := bspRS485
  frameInit := .enoerr
  eventInit := true

/-- The slave with `EV_READY` posted. -/
def postedReady : Slave :=
  let s := Slave.reset 0x20000000
  { s with modbus := xMBPortEventPost s.modbus .evReady }

/-- An `eMBInit` that fails, one that succeeds, and a life of the stack. -/
def life : List LifeAct :=
  [.call (.init (rtuArgs 0)), .call (.init (rtuArgs 1)), .call (.use .eMBPoll), .call (.use .eMBEnable),
    .between postedReady, .call (.use .eMBPoll), .call (.use .eMBDisable), .call (.use .eMBClose)]

theorem lifecycle_iff_life :
    LifecycleOk ((lifecycle fun _ => rtuFuncs).exec (fun _ _ => true) .reset life).1 := by
  have hr := Lts.Run.of_decide (lifecycle fun _ => rtuFuncs) (fun s a => s.StartsInit a ∧ s.AfterInit a)
    .reset life (by decide +kernel)
  exact (lifecycle_iff ⟨rfl, rfl, rfl, rfl⟩ (hr.mono fun _ _ => And.left)).mpr (hr.mono fun _ _ => And.right)

/-- The service goes on to enable a stack whose `eMBInit` has failed. -/
theorem not_lifecycle :
    ¬ ∀ (F : MBMode → FrameFuncs) (s t : Stack) (as : List LifeAct), (lifecycle F).init s →
      (lifecycle F).Run Stack.StartsInit s as t → LifecycleOk t := by
  intro h
  have hr := Lts.Run.of_decide (lifecycle fun _ => rtuFuncs) Stack.StartsInit
    .reset [.call (.init (rtuArgs 0)), .call (.use .eMBEnable)] (by decide +kernel)
  exact (h _ _ _ _ ⟨rfl, rfl, rfl, rfl⟩ hr).live (by decide +kernel)

end Rs485.Modbus
