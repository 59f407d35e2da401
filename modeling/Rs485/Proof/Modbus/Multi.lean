import Rs485.Proof.Modbus.Instance

/-!
# Instances do not disturb each other

`eMBPoll` keeps the frame it received in static variables until `EV_EXECUTE`, and
they are those of all instances. So an instance executes what it received, and
replies as if it were alone, in the runs in which no instance receives a valid
frame while another's `EV_EXECUTE` waits (`isolated`).

That two runs, one with the other instances and one without, stay alike for an
instance is `Sim`; an action of the instance keeps it by locality (`Sim.match`), and
one of another because it leaves the buffer, and under the guard the variables
(`Sim.skip`).
-/

namespace Rs485.Modbus

open Rs485.Framework

/-! ## What the program of an instance does -/

section Outcome

variable {R : Store} {u : Instance} {v w : PollVars} {op : MultiOp}
  {x : StoreM (Instance × (PollVars → PollVars))}

/-- Of the variables, the program uses those that `EV_EXECUTE` finds. -/
theorem program_congr (h : u.modbus.event = some .evExecute → v.received = w.received) :
    u.program R v op = u.program R w op := by
  cases op with
  | poll =>
    simp only [Instance.program, Instance.pollProgram]
    cases he : u.modbus.event with
    | none => rfl
    | some e =>
      cases e with
      | evExecute => simp only [Instance.executeProgram, executeStore, fixedExecute_congr (h he), h he]
      | _ => rfl
  | _ => rfl

theorem local_rdSlice {o : Obj} {p : Ptr Obj} (h : p.obj = o) (n : Nat) : Local o (rdSlice p n) where
  val s t hst := by
    subst h
    exact slice_local hst n
  part _ _ hst := hst
  others _ _ _ := rfl

theorem local_rxProgram {o : Obj} {m : EModbus} (h : m.ucRTUBuf.obj = o) (byte : UCHAR) :
    Local o (rxProgram m byte) := by
  rw [rxProgram]
  split
  · exact .pure _
  · exact .pure _
  · exact .bind (local_wr h _) fun _ => .pure _
  · exact .ite (fun _ => .bind (local_wr (p := m.ucRTUBuf.add _) h _) fun _ => .pure _)
      fun _ => .pure _

/-- What becomes of the event slot, if `EV_EXECUTE` is not posted. -/
def Unposted (m m' : EModbus) : Prop := m'.id = m.id ∧ (m'.Pending → m.Pending)

theorem unposted_take (m : EModbus) (e : MBEventType) : Unposted m (xMBPortEventTake m e) :=
  ⟨rfl, fun h => absurd h.1 (by simp)⟩

theorem unposted_rx (m : EModbus) (byte : UCHAR) (store : Store) :
    Unposted m (call (rxProgram m byte) store).1 := by
  rw [rxProgram]
  split
  · exact ⟨rfl, id⟩
  · exact ⟨rfl, id⟩
  · exact ⟨rfl, id⟩
  · rw [call_ite]
    split <;> exact ⟨rfl, id⟩

theorem unposted_t35 {m m' : EModbus} (h : m.t35 = some m') : Unposted m m' := by
  rw [EModbus.t35] at h
  split at h
  · cases h; exact ⟨rfl, fun hp => absurd hp.2 (by simp)⟩
  · cases h; exact ⟨rfl, fun hp => absurd hp.2 (by simp)⟩
  · cases h; exact ⟨rfl, id⟩
  · cases h

theorem unposted_transmit {m m' : EModbus} (h : m.transmit = some m') : Unposted m m' := by
  rw [EModbus.transmit] at h
  split at h
  · split at h
    · cases h; exact ⟨rfl, id⟩
    · split at h
      · cases h; exact ⟨rfl, id⟩
      · cases h; exact ⟨rfl, fun hp => absurd hp.2 (by simp)⟩
  · cases h

/-- The ways through the program of an instance. -/
inductive Program (R : Store) (u : Instance) (v : PollVars) :
    MultiOp → StoreM (Instance × (PollVars → PollVars)) → Prop
  | slot {op : MultiOp} {m : EModbus} (h : Unposted u.modbus m) :
    Program R u v op (return ({ u with modbus := m }, id))
  | rx (byte : UCHAR) :
    Program R u v (.rx byte) do
      let m ← rxProgram u.modbus byte
      return ({ u with modbus := m }, id)
  | receive (he : u.modbus.event = some .evFrameReceived) : Program R u v .poll u.receiveProgram
  | execute (he : u.modbus.event = some .evExecute) : Program R u v .poll (u.executeProgram R v)

theorem Program.of_poll (hx : u.pollProgram R v = some x) : Program R u v .poll x := by
  rw [Instance.pollProgram] at hx
  cases he : u.modbus.event with
  | none =>
    simp only [he] at hx
    cases hx
    exact .slot ⟨rfl, id⟩
  | some e =>
    simp only [he] at hx
    cases e with
    | evReady => cases hx; exact .slot (unposted_take _ _)
    | evFrameSent => cases hx; exact .slot (unposted_take _ _)
    | evExecute => cases hx; exact .execute he
    | evFrameReceived =>
      simp only at hx
      split at hx
      · cases hx; exact .receive he
      · cases hx

theorem Program.of_some (hx : u.program R v op = some x) : Program R u v op x := by
  cases op with
  | poll => exact .of_poll hx
  | rx byte =>
    rw [Instance.program] at hx
    split at hx
    · cases hx; exact .rx byte
    · cases hx
  | t35 =>
    obtain ⟨m, hm, rfl⟩ := Option.map_eq_some_iff.mp hx
    exact .slot (unposted_t35 hm)
  | txEmpty =>
    obtain ⟨m, hm, rfl⟩ := Option.map_eq_some_iff.mp hx
    exact .slot (unposted_transmit hm)

/-- The program works on the buffer of the instance, if that is where the PDU is. -/
theorem Program.isLocal {i : Nat} (h : Program R u v op x) (hi : u.modbus.id = i)
    (hf : u.modbus.event = some .evExecute → v.ucMBFrame = ⟨.ucRTUBuf i, 1⟩) :
    Local (.ucRTUBuf i) x := by
  have hm : u.modbus.ucRTUBuf.obj = .ucRTUBuf i := by rw [EModbus.ucRTUBuf, hi]
  cases h with
  | slot h => exact .pure _
  | rx byte => exact .bind (local_rxProgram hm byte) fun _ => .pure _
  | receive he => exact .bind (local_receiveFrame hm) fun _ => .pure _
  | execute he =>
    have hv : v.ucMBFrame.obj = .ucRTUBuf i := by rw [hf he]
    refine .bind (local_executeStore hm hv) fun s => .bind ?_ fun _ => .pure _
    exact local_rdSlice (by rw [Ptr.pred_obj, executeStore_ucMBFrame, hv]) _

/-- What becomes of an instance `u` and, from `v`, of the variables. -/
inductive Outcome (u : Instance) (v : PollVars) (op : MultiOp) (store : Store)
    (r : Instance × (PollVars → PollVars)) : Prop
  /-- Nothing is received or executed. -/
  | quiet (hv : ∀ w, r.2 w = w) (hl : r.1.last = u.last) (hu : r.1.used = u.used)
    (hp : r.1.modbus.Pending → u.modbus.Pending)
  /-- `peMBFrameReceiveCur` produces `f`. -/
  | received {f : Received} (hop : op = .poll) (he : u.modbus.event = some .evFrameReceived)
    (hf : (call (receiveFrame u.modbus) store).1 = some f) (hv : ∀ w, (r.2 w).received = f)
    (hl : r.1.last = some f) (hu : r.1.used = u.used)
  /-- `EV_EXECUTE` is taken. -/
  | executed (hp : u.modbus.Pending) (hl : r.1.last = u.last)
    (hu : r.1.used = u.used ++ [(v.received, u.last)]) (hp' : ¬ r.1.modbus.Pending)

theorem receive_id (m : EModbus) (r : Option Received) : (m.receive r).id = m.id := by
  rw [EModbus.receive.eq_def]
  split
  · split <;> rfl
  · rfl

theorem executed_slot (m : EModbus) (w : PollVars) :
    (m.executed w).id = m.id ∧ (m.executed w).xEventInQueue = m.xEventInQueue := by
  rw [EModbus.executed]
  split <;> exact ⟨rfl, rfl⟩

theorem receiveFrame_ptr {m : EModbus} {store : Store} {f : Received}
    (h : (call (receiveFrame m) store).1 = some f) : f.2.1 = m.ucRTUBuf.add 1 := by
  rw [receiveFrame_val] at h
  split at h
  · rw [← Option.some.inj h]
  · cases h

/-- A program that returns the instance with `m` in it. -/
theorem outcome_unposted {store : Store} {m : EModbus} (h : Unposted u.modbus m) :
    Outcome u v op store ({ u with modbus := m }, id) ∧ m.id = u.modbus.id :=
  ⟨.quiet (fun _ => rfl) rfl rfl h.2, h.1⟩

theorem Program.outcome (h : Program R u v op x) (store : Store) :
    Outcome u v op store (call x store).1 ∧ (call x store).1.1.modbus.id = u.modbus.id := by
  cases h with
  | slot h => exact outcome_unposted h
  | rx byte => exact outcome_unposted (unposted_rx _ _ _)
  | receive he =>
    rw [Instance.receiveProgram, call_bind, call_pure]
    refine ⟨?_, receive_id _ _⟩
    cases hf : (call (receiveFrame u.modbus) store).1 with
    | none => exact .quiet (fun _ => rfl) rfl rfl (unposted_take _ _).2
    | some f => exact .received rfl he hf (fun _ => rfl) rfl rfl
  | execute he =>
    have hslot := executed_slot (xMBPortEventTake u.modbus .evExecute)
    obtain ⟨-, hq, hev⟩ := event_some he
    refine ⟨.executed ⟨hq, hev⟩ rfl rfl fun hp => ?_, (hslot _).1⟩
    exact absurd ((hslot _).2.symm.trans hp.1) (by simp)

end Outcome

/-! ## Runs -/

section Runs

variable {n : Nat} {R : Store} {s t e : Multi n} {a : MultiAct n} {i : Fin n}

/-- A poll finds a valid frame only while no `EV_EXECUTE` of another instance waits. -/
def Alone (s : Multi n) (a : MultiAct n) : Prop :=
  a.op = .poll → (s.inst a.i).modbus.event = some .evFrameReceived →
    (call (receiveFrame (s.inst a.i).modbus) s.store).1.isSome = true →
    ∀ j, j ≠ a.i → ¬ (s.inst j).modbus.Pending

instance (s : Multi n) (a : MultiAct n) : Decidable (Alone s a) :=
  inferInstanceAs (Decidable (_ → _ → _ → _))

/-- While `EV_EXECUTE` of an instance waits, the variables hold what it last received. -/
structure MultiInv (s : Multi n) : Prop where
  id : ∀ i, (s.inst i).modbus.id = i
  rxQueue : s.board.rxQueue = []
  own : ∀ i f, (s.inst i).last = some f → f.2.1 = ⟨.ucRTUBuf i, 1⟩
  pending : ∀ i, (s.inst i).modbus.Pending → (s.inst i).last = some s.vars.received
  used : ∀ i, ∀ u ∈ (s.inst i).used, u.2 = some u.1

theorem MultiInv.of_init (h : (multi n R).init s) : MultiInv s where
  id i := (h.2 i).1
  rxQueue := h.1
  own i f hf := by
    obtain ⟨-, -, -, hl, -⟩ := h.2 i
    rw [hl] at hf
    cases hf
  pending i hp := by
    obtain ⟨-, -, hq, -⟩ := h.2 i
    rw [EModbus.Pending, hq] at hp
    exact absurd hp.1 (by simp)
  used i u hu := by
    obtain ⟨-, -, -, -, hu', -⟩ := h.2 i
    rw [hu'] at hu
    cases hu

/-- The frame that waits for `EV_EXECUTE` is the one in the buffer of the instance. -/
theorem MultiInv.ucMBFrame (h : MultiInv s) (hp : (s.inst i).modbus.Pending) :
    s.vars.ucMBFrame = ⟨.ucRTUBuf i, 1⟩ :=
  h.own i _ (h.pending i hp)

/-- `EV_EXECUTE` of one instance waits at most. -/
theorem MultiInv.pending_unique (h : MultiInv s) {j : Fin n} (hi : (s.inst i).modbus.Pending)
    (hj : (s.inst j).modbus.Pending) : i = j := by
  have heq := (h.ucMBFrame hi).symm.trans (h.ucMBFrame hj)
  simp only [Ptr.mk.injEq, Obj.ucRTUBuf.injEq, and_true] at heq
  exact Fin.ext heq

/-- What an action does, by the program of its instance. -/
theorem next_ran (h : MultiInv s) (hn : (multi n R).next s a = some t) :
    ∃ x b, (s.inst a.i).program R s.vars a.op = some x ∧ b.rxQueue = [] ∧ t = s.ran a.i x b ∧
      Local (.ucRTUBuf a.i) x := by
  have hr := ran_act h.rxQueue R a
  simp only [multi] at hn
  cases hx : (s.inst a.i).program R s.vars a.op with
  | none =>
    rw [hx] at hr
    obtain ⟨e, he⟩ := hr
    rw [he] at hn
    cases hn
  | some x =>
    rw [hx] at hr
    obtain ⟨b, hb, ht⟩ := hr
    rw [ht] at hn
    refine ⟨x, b, rfl, hb, (Option.some.inj hn).symm, (Program.of_some hx).isLocal (h.id _) fun he => ?_⟩
    obtain ⟨-, hq, hev⟩ := event_some he
    exact h.ucMBFrame ⟨hq, hev⟩

/-- The step rule of the invariant. -/
theorem MultiInv.step (h : MultiInv s) (hok : Alone s a) (hn : (multi n R).next s a = some t) :
    MultiInv t := by
  obtain ⟨x, b, hx, hb, rfl, hl⟩ := next_ran h hn
  obtain ⟨heff, hid⟩ := (Program.of_some hx).outcome s.store
  have hself : (s.ran a.i x b).inst a.i = (call x s.store).1.1 := Function.update_self ..
  have hother (j : Fin n) (hj : j ≠ a.i) : (s.ran a.i x b).inst j = s.inst j :=
    Function.update_of_ne hj ..
  -- the clauses for the instance that acts; the others keep theirs if the variables allow it
  suffices hmain : (∀ f, (call x s.store).1.1.last = some f → f.2.1 = ⟨.ucRTUBuf a.i, 1⟩) ∧
      ((call x s.store).1.1.modbus.Pending →
        (call x s.store).1.1.last = some (s.ran a.i x b).vars.received) ∧
      (∀ u ∈ (call x s.store).1.1.used, u.2 = some u.1) ∧
      ∀ j, j ≠ a.i → (s.inst j).modbus.Pending →
        (s.ran a.i x b).vars.received = s.vars.received by
    obtain ⟨hown, hpend, hused, hvars⟩ := hmain
    refine ⟨fun j => ?_, hb, fun j => ?_, fun j => ?_, fun j => ?_⟩
    all_goals by_cases hj : j = a.i
    · subst hj; rw [hself, hid]; exact h.id _
    · rw [hother j hj]; exact h.id j
    · subst hj; rw [hself]; exact hown
    · rw [hother j hj]; exact h.own j
    · subst hj; rw [hself]; exact hpend
    · rw [hother j hj]
      intro hp
      rw [hvars j hj hp]
      exact h.pending j hp
    · subst hj; rw [hself]; exact hused
    · rw [hother j hj]; exact h.used j
  cases heff with
  | quiet hv hlast hu hp =>
    have hvars : (s.ran a.i x b).vars = s.vars := hv _
    rw [hlast, hu, hvars]
    exact ⟨h.own a.i, fun hp' => h.pending a.i (hp hp'), h.used a.i, fun _ _ _ => rfl⟩
  | received hop he hf hv hlast hu =>
    have hvars : (s.ran a.i x b).vars.received = _ := hv _
    rw [hlast, hu, hvars]
    refine ⟨fun f hf' => ?_, fun _ => rfl, h.used a.i, fun j hj hp => ?_⟩
    · rw [← Option.some.inj hf', receiveFrame_ptr hf, EModbus.ucRTUBuf, h.id]
      rfl
    · exact absurd hp (hok hop he (by rw [hf]; rfl) j hj)
  | executed hp hlast hu hp' =>
    rw [hlast, hu]
    refine ⟨h.own a.i, fun hp'' => absurd hp'' hp', fun u hu => ?_, fun j hj hpj => ?_⟩
    · rcases List.mem_append.mp hu with hu | hu
      · exact h.used a.i u hu
      · rw [List.mem_singleton.mp hu]
        exact h.pending a.i hp
    · exact absurd (h.pending_unique hpj hp) hj

/-- The instance `i` cannot tell the two systems apart. -/
structure Sim (i : Fin n) (s e : Multi n) : Prop where
  inst : s.inst i = e.inst i
  data : s.store.mem.data (.ucRTUBuf i) = e.store.mem.data (.ucRTUBuf i)
  rxQueue : e.board.rxQueue = []
  pending : (s.inst i).modbus.Pending → s.vars.received = e.vars.received

/-- An action of the instance is the same in both. -/
theorem Sim.match (hI : MultiInv s) (h : Sim a.i s e) (hn : (multi n R).next s a = some t) :
    ∃ e', (multi n R).next e a = some e' ∧ Sim a.i t e' := by
  obtain ⟨x, b, hx, hb, rfl, hl⟩ := next_ran hI hn
  have hvars (he : (s.inst a.i).modbus.event = some .evExecute) :
      s.vars.received = e.vars.received := by
    obtain ⟨-, hq, hev⟩ := event_some he
    exact h.pending ⟨hq, hev⟩
  have hx' : (e.inst a.i).program R e.vars a.op = some x := by
    rw [← h.inst, ← program_congr hvars, hx]
  have hr := ran_act h.rxQueue R a
  rw [hx'] at hr
  obtain ⟨b', hb', he'⟩ := hr
  have hval : (call x s.store).1 = (call x e.store).1 := hl.val _ _ h.data
  refine ⟨e.ran a.i x b', by simp only [multi, he']; rfl, ?_, hl.part _ _ h.data, hb', fun hp => ?_⟩
  · simp only [Multi.ran, Function.update_self, hval]
  · simp only [Multi.ran, Function.update_self] at hp ⊢
    rw [← hval]
    cases ((Program.of_some hx).outcome s.store).1 with
    | quiet hv hlast hu hp' =>
      rw [hv, hv]
      exact h.pending (hp' hp)
    | received hop he hf hv hlast hu => rw [hv, hv]
    | executed hp' hlast hu hp'' => exact absurd hp hp''

/-- An action of another instance is not noticed. -/
theorem Sim.skip (hI : MultiInv s) (h : Sim i s e) (hi : a.i ≠ i) (hok : Alone s a)
    (hn : (multi n R).next s a = some t) : Sim i t e := by
  obtain ⟨x, b, hx, hb, rfl, hl⟩ := next_ran hI hn
  have hinst : (s.ran a.i x b).inst i = s.inst i := Function.update_of_ne hi.symm ..
  have hdata : (call x s.store).2.mem.data (.ucRTUBuf i) = s.store.mem.data (.ucRTUBuf i) :=
    hl.others _ _ (by simpa [Fin.ext_iff] using hi.symm)
  refine ⟨hinst.trans h.inst, hdata.trans h.data, h.rxQueue, fun hp => ?_⟩
  rw [hinst] at hp
  rw [← h.pending hp]
  cases ((Program.of_some hx).outcome s.store).1 with
  | quiet hv hlast hu hp' => exact congrArg _ (hv _)
  | received hop he hf hv hlast hu => exact absurd hp (hok hop he (by rw [hf]; rfl) i hi.symm)
  | executed hp' hlast hu hp'' => exact absurd (hI.pending_unique hp' hp) hi

/-- Every `EV_EXECUTE` step uses what its instance last received, and the replies of an
instance are those of the run of its own actions, in the runs in which no poll finds a
valid frame while `EV_EXECUTE` of another instance waits. -/
theorem isolated (R : Store) {s t : Multi n} {as : List (MultiAct n)} (hs : (multi n R).init s)
    (hr : (multi n R).Run Alone s as t) (i : Fin n) :
    (∀ u ∈ (t.inst i).used, u.2 = some u.1) ∧
      ∃ e, (multi n R).Run Lts.any s (as.filter fun a => a.i = i) e ∧
        (e.inst i).replies = (t.inst i).replies := by
  have hI := MultiInv.of_init hs
  refine ⟨(hr.inv (fun _ _ _ h hok hn => h.step hok hn) hI).used i, ?_⟩
  obtain ⟨e, hre, he⟩ := hr.filter (p := fun a => a.i = i) (S := Sim i) hI
    ⟨rfl, rfl, hI.rxQueue, fun _ => rfl⟩ (fun _ _ _ h hok hn => h.step hok hn)
    (fun _ a _ _ hI h hp hn => by
      obtain rfl := of_decide_eq_true hp
      exact h.match hI hn)
    (fun _ _ _ _ hI h hp hok hn => h.skip hI (of_decide_eq_false hp) hok hn)
  exact ⟨e, hre, by rw [he.inst]⟩

end Runs

/-- The instances 0 and 1, with the addresses 1 and 2, as `eMBEnable` leaves them. -/
def twoSlaves : Multi 2 where
  inst i :=
    { modbus :=
        { (Slave.reset 0x20000000).modbus with
          id := i, ucMBAddress := BitVec.ofNat 8 (i + 1), ucPort := bspRS485, eMBState := .enabled }
      last := none
      used := []
      replies := [] }
  store := (Slave.reset 0x20000000).store
  board := (Slave.reset 0x20000000).board
  vars := .reset

theorem twoSlaves_init (R : Store) : (multi 2 R).init twoSlaves :=
  ⟨rfl, fun _ => ⟨rfl, rfl, rfl, rfl, rfl, rfl⟩⟩

/-- The instance `i` gets a request: the first T3.5, the bytes `bs`, and the next T3.5. -/
def requested (i : Fin 2) (bs : List UCHAR) : List (MultiAct 2) :=
  [⟨i, .t35⟩, ⟨i, .poll⟩] ++ bs.map (fun byte => ⟨i, .rx byte⟩) ++ [⟨i, .t35⟩]

/-- Both instances get a request for their holding register 0. -/
def bothRequested : List (MultiAct 2) :=
  requested 0 request ++ requested 1 [0x02, 0x03, 0x00, 0x00, 0x00, 0x01, 0x84, 0x39]

/-- The requests, received and executed one after the other. -/
def inTurn : List (MultiAct 2) :=
  bothRequested ++ [⟨0, .poll⟩, ⟨0, .poll⟩, ⟨1, .poll⟩, ⟨1, .poll⟩]

/-- The requests, of which the second is received before the first is executed. -/
def crossed : List (MultiAct 2) := bothRequested ++ [⟨0, .poll⟩, ⟨1, .poll⟩, ⟨0, .poll⟩]

/-- In turn, both requests are answered as if each instance were alone. -/
theorem isolated_inTurn :
    let t := ((multi 2 twoSlaves.store).exec (fun s a => decide (Alone s a)) twoSlaves inTurn).1
    (∀ u ∈ (t.inst 1).used, u.2 = some u.1) ∧
      ∃ e, (multi 2 twoSlaves.store).Run Lts.any twoSlaves (inTurn.filter fun a => a.i = 1) e ∧
        (e.inst 1).replies = (t.inst 1).replies := by
  have hr := Lts.Run.of_decide (multi 2 twoSlaves.store) Alone twoSlaves
    inTurn (by decide +kernel)
  exact isolated _ (twoSlaves_init _) hr 1

/-- Crossed, instance 0 executes the request of instance 1. -/
theorem not_isolated : ¬ ∀ (R : Store) (s t : Multi 2) (as : List (MultiAct 2)),
    (multi 2 R).init s → (multi 2 R).Run Lts.any s as t → ∀ i,
      (∀ u ∈ (t.inst i).used, u.2 = some u.1) ∧
        ∃ e, (multi 2 R).Run Lts.any s (as.filter fun a => a.i = i) e ∧
          (e.inst i).replies = (t.inst i).replies := by
  intro h
  have hr := Lts.Run.any_of_exec (multi 2 twoSlaves.store) twoSlaves crossed
    (by decide +kernel)
  have hu := (h _ _ _ _ (twoSlaves_init _) hr 0).1
  exact absurd hu (by decide +kernel)

end Rs485.Modbus
