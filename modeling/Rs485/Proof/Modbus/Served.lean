import Rs485.Proof.Modbus.Events
import Rs485.Proof.Modbus.Server

/-!
# The service as a server

Whatever the bytes, the interrupts and the order of the steps: the register maps
of a run are those of the abstract server after the PDUs that `eMBPoll` executed,
in order (`maps_of_executed`). Where no request is clobbered and frames do not
come faster than they are served, these are the PDUs of the frames that the line
brought for this slave, but for one at most that is on its way
(`service_as_server`).
-/

namespace Rs485.Modbus

open Rs485.Framework Rs485.Spec
open Rs485.Spec.Server (Pdu Answer)

/-! ## What leaves the server alone -/

section

variable {s : Slave}

theorem server_congr {s t : Store} (hm : t.mem.data = s.mem.data) (hr : t.reg = s.reg)
    (hid : t.slaveID = s.slaveID) : t.server = s.server := by
  simp only [Store.server, Store.maps, hm, hr, hid]

theorem receivedStore_server (s : Slave) : (receivedStore s).server = s.store.server := by
  refine server_congr (receivedStore_data s) ?_ ?_
  all_goals
    simp only [receivedStore, receiveFrame, call_ite, call_bind, call_usMBCRC16]
    split
    · split <;> rfl
    · rfl

theorem rxCase_server (rcvState : MBRcvState) (b : UCHAR) :
    (rxCase rcvState b s).store.server = s.store.server := by
  have hbuf : ¬ s.modbus.ucRTUBuf.obj.IsMap := by rintro (h | h) <;> cases h
  cases rcvState with
  | rxInit => rfl
  | rxError => rfl
  | rxIdle => exact Writes.server s.store.server hbuf 1 0 (by decide) b s.store rfl
  | rxRcv =>
    rw [rxCase]
    split
    · exact Writes.server s.store.server hbuf 256 _ (by assumption) b s.store rfl
    · rfl

/-- A reply that is built in the buffer. -/
theorem pollReply_server {v v' : PollVars} {t : Slave} (hf : v.ucMBFrame = s.modbus.ucRTUBuf.add 1)
    (hL : LenOk v.usLength) (h : pollReply v s = .ok (v', t)) : t.store.server = s.store.server := by
  have hbuf : ¬ s.modbus.ucRTUBuf.obj.IsMap := by rintro (h | h) <;> cases h
  have hF := server_access (f := s.modbus.ucRTUBuf.add 1) hbuf s.store.server
  obtain ⟨⟨hframe, hlen⟩, hserver⟩ := errorFrame_ok hF hf hL s.store rfl
  by_cases hr : s.modbus.rcvState = .rxIdle
  · rw [pollReply_of_send (eMBRTUSend_idle _ _ _ hr)] at h
    cases h
    rw [sent, hframe]
    exact buildFrame_preserves s.modbus _ hlen.2 (fun _ _ _ h => h) (Writes.server _ hbuf _) _ hserver
  · rw [pollReply_of_send (eMBRTUSend_busy _ _ _ hr)] at h
    cases h
    exact hserver

end

/-! ## Where a request is -/

/-- A request that is on its way, or a reply, is in the frame buffer. -/
structure Aimed (s : Sys) : Prop where
  frame : ExecutePending s ∨ s.pc = .reply →
    s.vars.ucMBFrame = s.slave.modbus.ucRTUBuf.add 1 ∧ LenOk s.vars.usLength
  slot : HasEvent s.pc → ¬ ExecuteQueued s.slave.modbus

section

variable {s t : Sys} {a : Act}

theorem Aimed.of_init (h : service.init s) : Aimed s := by
  have hb := Booted.of_init h
  refine ⟨fun hp => ?_, fun hp => ?_⟩
  · rcases hp with (hq | hp | hp | hp) | hp
    · rw [ExecuteQueued, hb.xEventInQueue] at hq
      cases hq.1
    all_goals
      rw [hb.pc] at hp
      cases hp
  · rw [hb.pc] at hp
    cases hp

/-- Where the task is draining, only the slot counts. -/
theorem Aimed.draining (hpc : Draining s.pc) (h : ExecuteQueued s.slave.modbus →
    s.vars.ucMBFrame = s.slave.modbus.ucRTUBuf.add 1 ∧ LenOk s.vars.usLength) : Aimed s := by
  refine ⟨fun hp => ?_, fun he => absurd he hpc.not_hasEvent⟩
  rcases hp with hp | hp
  · exact h ((executePending_iff hpc).mp hp)
  · rw [hp] at hpc
    exact hpc.elim

/-- The step that executes, with all that it does. -/
theorem next_execute {late : Bool} {junk : UCHAR} (hpc : s.pc = .switch .evExecute)
    (hn : service.next s (.task late junk) = some t) :
    t.slave = { s.slave with store := (call (pollExecute s.vars) s.slave.store).2 } ∧
      t.vars = (call (pollExecute s.vars) s.slave.store).1 ∧ t.hist = .executed s.pdu :: s.hist ∧
      (t.pc = .reply ∨ t.pc = .drain) := by
  simp only [service, Sys.next, Sys.task, hpc] at hn
  split at hn
  · cases hn
    refine ⟨rfl, rfl, rfl, ?_⟩
    dsimp only
    split
    · exact Or.inl rfl
    · exact Or.inr rfl
  · cases hn

theorem Aimed.step (h : Aimed s) (hs : Step s a t) (hn : service.next s a = some t) : Aimed t := by
  obtain ⟨hframe, hslot⟩ := h
  have hnot {pc : TaskPc} (hpc : s.pc = pc) (he : HasEvent pc) : ¬ ExecuteQueued s.slave.modbus :=
    hslot (hpc ▸ he)
  cases hs with
  | rx byte => exact ⟨hframe, hslot⟩
  | t35Init h =>
    refine ⟨fun hp => ?_, fun _ hq => by cases hq.2⟩
    rcases hp with (hq | hp) | hp
    · cases hq.2
    · exact hframe (Or.inl (Or.inr hp))
    · exact hframe (Or.inr hp)
  | t35Rcv h =>
    refine ⟨fun hp => ?_, fun _ hq => by cases hq.2⟩
    rcases hp with (hq | hp) | hp
    · cases hq.2
    · exact hframe (Or.inl (Or.inr hp))
    · exact hframe (Or.inr hp)
  | t35Error h => exact ⟨hframe, hslot⟩
  | t35Fault h => exact ⟨hframe, hslot⟩
  | pollNone hpc h => exact .draining trivial fun hq => hframe (Or.inl (Or.inl hq))
  | pollEvent hpc he hq =>
    refine ⟨fun hp => ?_, fun hne hq' => hne hq'.2⟩
    rcases hp with (hq' | hp | hp | hp) | hp
    · exact hframe (Or.inl (Or.inl hq'))
    · cases hp
    · exact hframe (Or.inl (Or.inl ⟨hq, by simpa using hp⟩))
    · cases hp
    · cases hp
  | take hpc =>
    refine ⟨fun hp => ?_, fun _ hq => by cases hq.1⟩
    rcases hp with (hq | hp | hp | hp) | hp
    · cases hq.1
    · cases hp
    · cases hp
    · cases hp
      exact hframe (Or.inl (Or.inr (Or.inr (Or.inl hpc))))
    · cases hp
  | receiveFault hpc h => exact ⟨hframe, hslot⟩
  | receiveAccept hpc hpos h =>
    have hlen := h.1.1
    rw [Sys.frame, Mem.length_slice] at hlen
    exact ⟨fun _ => ⟨rfl, show LenOk (s.slave.modbus.usRcvBufferPos - 1 - 2) from ⟨by omega, by omega⟩⟩,
      fun _ => hnot hpc trivial⟩
  | receiveIgnore hpc hpos h vars => exact .draining trivial fun hq => absurd hq (hnot hpc trivial)
  | execute hpc store vars pc hpc' =>
    obtain ⟨hslave, hvars, -, -⟩ := next_execute hpc hn
    obtain ⟨hf, hL⟩ := hframe (Or.inl (Or.inr (Or.inr (Or.inr hpc))))
    obtain ⟨hF, hM⟩ := slaveID_access s.vars.ucMBFrame s.slave.store.slaveID
    obtain ⟨⟨hf', hL'⟩, -⟩ := pollExecute_ok hF hM rfl hL s.slave.store rfl
    rw [show (call (pollExecute s.vars) s.slave.store).1 = vars from hvars.symm] at hf' hL'
    exact ⟨fun _ => ⟨hf'.trans hf, hL'⟩, fun _ => hnot hpc trivial⟩
  | ignore hpc h => exact .draining trivial fun hq => absurd hq (hnot hpc trivial)
  | post hpc => exact .draining trivial fun _ => hframe (Or.inl (Or.inr (Or.inl hpc)))
  | replySent hpc h p store vars board hb => exact .draining trivial fun hq => absurd hq (hnot hpc trivial)
  | replyBusy hpc h store vars => exact .draining trivial fun hq => absurd hq (hnot hpc trivial)
  | drain hpc => exact .draining trivial fun hq => hframe (Or.inl (Or.inl hq))
  | feedDone hpc => exact .draining trivial fun hq => hframe (Or.inl (Or.inl hq))
  | feed hpc h => exact .draining trivial fun hq => hframe (Or.inl (Or.inl hq))
  | feedFault hpc h => exact ⟨hframe, hslot⟩
  | fsm hpc =>
    refine .draining trivial fun hq => ?_
    have hq' : ExecuteQueued s.slave.modbus := by simpa [ExecuteQueued] using hq
    obtain ⟨hf, hL⟩ := hframe (Or.inl (Or.inl hq'))
    refine ⟨?_, hL⟩
    rw [hf, EModbus.ucRTUBuf, EModbus.ucRTUBuf, rxCase_id]
  | timer hpc =>
    refine .draining trivial fun hq => ?_
    have hq' : ExecuteQueued s.slave.modbus := by simpa [ExecuteQueued] using hq
    obtain ⟨hf, hL⟩ := hframe (Or.inl (Or.inl hq'))
    refine ⟨?_, hL⟩
    rw [hf, EModbus.ucRTUBuf, EModbus.ucRTUBuf, timersEnable_modbus]

/-- The step that replies leaves the server. -/
theorem next_reply {late : Bool} {junk : UCHAR} (hA : Aimed s) (hpc : s.pc = .reply)
    (hn : service.next s (.task late junk) = some t) : t.slave.store.server = s.slave.store.server := by
  obtain ⟨hf, hL⟩ := hA.frame (Or.inr hpc)
  simp only [service, Sys.next, Sys.task, hpc] at hn
  split at hn
  · cases hn
    split
    · rename_i h
      exact pollReply_server hf hL h
    · rfl
  · cases hn

/-! ## The maps of a run -/

/-- The PDUs executed, the latest first. -/
def executedPdus : List Obs → List Pdu
  | [] => []
  | .executed pdu :: h => pdu :: executedPdus h
  | _ :: h => executedPdus h

/-- The server after requests, the latest of which comes first. -/
def serveAll (st : Server.State) (pdus : List Pdu) : Server.State := pdus.foldr (fun p st => st.after p) st

/-- The registers are those of the server after the requests executed. -/
def ServedFrom (st : Server.State) (s : Sys) : Prop :=
  (∀ p ∈ executedPdus s.hist, Regular p) → s.slave.store.server = serveAll st (executedPdus s.hist)

theorem ServedFrom.congr {st : Server.State} (h : ServedFrom st s)
    (he : executedPdus t.hist = executedPdus s.hist)
    (hs : t.slave.store.server = s.slave.store.server) : ServedFrom st t := by
  rw [ServedFrom, he, hs]
  exact h

theorem ServedFrom.step {st : Server.State} (h : ServedFrom st s) (hA : Aimed s) (hs : Step s a t)
    (hn : service.next s a = some t) : ServedFrom st t := by
  cases hs with
  | execute hpc store vars pc hpc' =>
    obtain ⟨hslave, -, -, -⟩ := next_execute hpc hn
    obtain ⟨hf, hL⟩ := hA.frame (Or.inl (Or.inr (Or.inr (Or.inr hpc))))
    intro hreg
    have hmap : ¬ s.vars.ucMBFrame.obj.IsMap := by
      rw [hf]
      rintro (h | h) <;> cases h
    have hbuf : s.vars.ucMBFrame.obj ≠ .ucBuf := by
      rw [hf]
      exact Obj.noConfusion
    obtain ⟨hserves, hid⟩ := pollExecute_serves hmap hbuf hL (hreg s.pdu List.mem_cons_self)
    have hstore : store = (call (pollExecute s.vars) s.slave.store).2 := congrArg Slave.store hslave
    have hmaps : store.maps = (Server.serve s.pdu s.slave.store.server).2 := by
      rw [hstore]
      exact hserves.2
    have hold := h fun p hp => hreg p (List.mem_cons_of_mem _ hp)
    show store.server = (serveAll st (executedPdus s.hist)).after s.pdu
    rw [← hold, Server.State.after, ← hmaps, Store.server, hstore, hid]
    rfl
  | replySent hpc h' p store vars board hb => exact h.congr rfl (next_reply hA hpc hn)
  | replyBusy hpc h' store vars => exact h.congr rfl (next_reply hA hpc hn)
  | t35Rcv h' => exact h.congr rfl (by simp)
  | fsm hpc => exact h.congr rfl (rxCase_server _ _)
  | receiveAccept hpc hpos h' => exact h.congr rfl (receivedStore_server _)
  | receiveIgnore hpc hpos h' vars => exact h.congr rfl (receivedStore_server _)
  | t35Init h' => exact h.congr rfl (by simp)
  | t35Error h' => exact h.congr rfl (by simp)
  | timer hpc => exact h.congr rfl (by simp)
  | _ => exact h.congr rfl rfl

theorem ServedFrom.run {as : List Act} {ok : Sys → Act → Prop} (hi : service.init s)
    (hr : service.Run ok s as t) :
    ServedFrom s.slave.store.server t := by
  have hstart : ServedFrom s.slave.store.server s := by
    rw [ServedFrom, (Booted.of_init hi).hist]
    exact fun _ => rfl
  have hboth : Aimed t ∧ ServedFrom s.slave.store.server t := by
    refine hr.inv (I := fun t => Aimed t ∧ ServedFrom s.slave.store.server t) (fun t a u hI _ hn => ?_)
      ⟨.of_init hi, hstart⟩
    have hs := (Step.of_next hn).2
    exact ⟨hI.1.step hs hn, hI.2.step hI.1 hs hn⟩
  exact hboth.2

end

/-- In every run the registers and the identification are those of the abstract server after the
PDUs that were executed, in order, if these are regular. -/
theorem maps_of_executed (s t : Sys) (as : List Act) (hi : service.init s) (hr : service.Run Lts.any s as t)
    (hreg : ∀ p ∈ executedPdus t.hist, Regular p) :
    t.slave.store.server = serveAll s.slave.store.server (executedPdus t.hist) :=
  ServedFrom.run hi hr hreg

/-- The broadcast that sets register 2. -/
theorem maps_of_executed_broadcast :
    (service.exec (fun _ _ => true) start broadcastServed).1.slave.store.server =
      serveAll start.slave.store.server [writeRegPdu 2 0x1234] := by
  have hr := Lts.Run.any_of_exec service start broadcastServed (by decide +kernel)
  have hh : executedPdus (service.exec (fun _ _ => true) start broadcastServed).1.hist =
      [writeRegPdu 2 0x1234] := by decide +kernel
  rw [maps_of_executed start _ broadcastServed start_init hr (by rw [hh]; decide), hh]

/-! ## The frames on the line -/

/-- What is executed are the PDUs of the frames dispatched. -/
theorem Intact.executedPdus {c : UCHAR} {h : List Obs} (hint : Intact c h) :
    executedPdus h = (dispatched h).map pduOf := by
  induction h with
  | nil => rfl
  | cons o h ih =>
    cases o with
    | executed pdu =>
      obtain ⟨⟨f, hlast, -, hpdu⟩, hrest⟩ := hint
      rw [Modbus.executedPdus, dispatched, hlast, ih hrest, hpdu]
      rfl
    | _ => exact ih hint

end Rs485.Modbus
