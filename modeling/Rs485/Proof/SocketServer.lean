import Rs485.Impl.SocketServer

/-!
# The accounts of the socket server

A pass has five exits (`acceptPass_cases`). Four leave the accounts in order; the fifth is
that no task was created and the record `client`, which nothing initialised, has something
else than NULL in `task_handle`, so that the pass takes the task for created.
`num_clients` has 16 bits and only counts up.
-/

namespace Rs485.SocketServer

open Rs485.Framework

/-- How many connections were handed to tasks that were created. -/
def handed (s : Server) : Nat := (s.connections.filter (·.handed)).length

/-- Each descriptor was closed once or is handed to a task, each block was freed once or is handed to a
task, and `num_clients` is the number of connections handed to tasks. -/
structure Accounted (s : Server) : Prop where
  connections : ∀ c ∈ s.connections, (c.closes = 1 ∧ c.handed = false) ∨ (c.closes = 0 ∧ c.handed = true)
  blocks : ∀ b ∈ s.blocks, (b.frees = 1 ∧ b.handed = false) ∨ (b.frees = 0 ∧ b.handed = true)
  count : s.numClients.toNat = handed s

/-- Where the pass gets to `xTaskCreate`: if no task is created, the record has NULL in `task_handle`;
and if one is, fewer than 65535 were before. -/
def Recognised (s : Server) (o : Outcome) : Prop :=
  0 ≤ o.lwipAccept → s.clientHandler = true → o.pvPortMalloc ≠ 0 →
    (o.xTaskCreate = none → o.client.taskHandle = 0) ∧ (o.xTaskCreate ≠ none → handed s < 65535)

instance decidableRecognised (s : Server) (o : Outcome) : Decidable (Recognised s o) :=
  inferInstanceAs (Decidable (_ → _ → _ → _ ∧ _))

section

variable (s : Server)

@[simp] theorem call_lwipAccept (fd : Int) :
    call (lwipAccept fd) s =
      (fd, if fd < 0 then s else { s with connections := ⟨fd, 0, false⟩ :: s.connections }) := rfl

@[simp] theorem call_lwipClose (fd : Int) :
    call (lwipClose fd) s = (PUnit.unit, { s with
      connections := onFirst (·.fd = fd) (fun c => { c with closes := c.closes + 1 }) s.connections }) := rfl

@[simp] theorem call_pvPortMalloc (ptr : Pointer) :
    call (pvPortMalloc ptr) s =
      (ptr, if ptr = 0 then s else { s with blocks := ⟨ptr, 0, false⟩ :: s.blocks }) := rfl

@[simp] theorem call_vPortFree (ptr : Pointer) :
    call (vPortFree ptr) s = (PUnit.unit, { s with
      blocks := onFirst (·.ptr = ptr) (fun b => { b with frees := b.frees + 1 }) s.blocks }) := rfl

@[simp] theorem call_addClients (n : BitVec 16) :
    call (addClients n) s = (PUnit.unit, { s with numClients := s.numClients + n }) := rfl

end

section

variable {s t : Server} {o : Outcome}

/-- The state behind a pass that accepted a connection: what became of it and of the block. -/
def Server.after (s : Server) (c : Connection) (block : Option Block) (n : BitVec 16) : Server :=
  { s with
    connections := c :: s.connections
    blocks := block.toList ++ s.blocks
    numClients := s.numClients + n }

/-- The exits of a pass. -/
inductive Exit (s : Server) (o : Outcome) : Server → Prop
  /-- No connection was accepted. -/
  | noClient : o.lwipAccept < 0 → Exit s o s
  /-- There is no handler, or no memory for its record. -/
  | noRecord : 0 ≤ o.lwipAccept → (s.clientHandler = false ∨ o.pvPortMalloc = 0) →
    Exit s o (s.after ⟨o.lwipAccept, 1, false⟩ none 0)
  /-- A task was created. -/
  | created (handle) : 0 ≤ o.lwipAccept → s.clientHandler = true → o.pvPortMalloc ≠ 0 →
    o.xTaskCreate = some handle →
    Exit s o (s.after ⟨o.lwipAccept, 0, true⟩ (some ⟨o.pvPortMalloc, 0, true⟩) 1)
  /-- No task was created, and the pass found out. -/
  | notCreated : 0 ≤ o.lwipAccept → s.clientHandler = true → o.pvPortMalloc ≠ 0 → o.xTaskCreate = none →
    o.client.taskHandle = 0 →
    Exit s o (s.after ⟨o.lwipAccept, 1, false⟩ (some ⟨o.pvPortMalloc, 1, false⟩) 0)
  /-- No task was created, and the pass did not find out. -/
  | unrecognised : 0 ≤ o.lwipAccept → s.clientHandler = true → o.pvPortMalloc ≠ 0 → o.xTaskCreate = none →
    o.client.taskHandle ≠ 0 →
    Exit s o (s.after ⟨o.lwipAccept, 0, false⟩ (some ⟨o.pvPortMalloc, 0, false⟩) 1)

/-- A connection counted and given up again. -/
@[simp] theorem uncount (n : BitVec 16) : n + 1#16 + 65535#16 = n := by
  rw [BitVec.add_assoc]
  exact BitVec.add_zero n

theorem acceptPass_exit (s : Server) (o : Outcome) : Exit s o (call (acceptPass o) s).2 := by
  by_cases ha : o.lwipAccept < 0
  · have hpass : (call (acceptPass o) s).2 = s := by
      simp [acceptPass, ha]
    rw [hpass]
    exact .noClient ha
  by_cases hh : s.clientHandler = true
  · by_cases hp : o.pvPortMalloc = 0#32
    · have hpass : (call (acceptPass o) s).2 = s.after ⟨o.lwipAccept, 1, false⟩ none 0 := by
        simp [acceptPass, onFirst, Server.after, ha, hh, hp]
      rw [hpass]
      exact .noRecord (by omega) (Or.inr hp)
    · cases hx : o.xTaskCreate with
      | some handle =>
        have hpass : (call (acceptPass o) s).2 =
            s.after ⟨o.lwipAccept, 0, true⟩ (some ⟨o.pvPortMalloc, 0, true⟩) 1 := by
          have hne : ¬ handle.1 = 0#32 := handle.2
          simp [acceptPass, xTaskCreate, onFirst, Server.after, ha, hh, hp, hx, hne]
        rw [hpass]
        exact .created handle (by omega) hh hp hx
      | none =>
        by_cases hc : o.client.taskHandle = 0#32
        · have hpass : (call (acceptPass o) s).2 =
              s.after ⟨o.lwipAccept, 1, false⟩ (some ⟨o.pvPortMalloc, 1, false⟩) 0 := by
            simp [acceptPass, xTaskCreate, onFirst, Server.after, ha, hh, hp, hx, hc]
          rw [hpass]
          exact .notCreated (by omega) hh hp hx hc
        · have hpass : (call (acceptPass o) s).2 =
              s.after ⟨o.lwipAccept, 0, false⟩ (some ⟨o.pvPortMalloc, 0, false⟩) 1 := by
            simp [acceptPass, xTaskCreate, Server.after, ha, hh, hp, hx, hc]
          rw [hpass]
          exact .unrecognised (by omega) hh hp hx hc
  · have hpass : (call (acceptPass o) s).2 = s.after ⟨o.lwipAccept, 1, false⟩ none 0 := by
      simp [acceptPass, onFirst, Server.after, ha, hh]
    rw [hpass]
    exact .noRecord (by omega) (Or.inl (by simpa using hh))

/-- A pass that leaves a connection in order, and its block if it has one. -/
theorem Accounted.after (h : Accounted s) {c : Connection} {block : Option Block} {n : BitVec 16}
    (hc : (c.closes = 1 ∧ c.handed = false) ∨ (c.closes = 0 ∧ c.handed = true))
    (hb : ∀ b ∈ block, (b.frees = 1 ∧ b.handed = false) ∨ (b.frees = 0 ∧ b.handed = true))
    (hn : (s.numClients + n).toNat = handed (s.after c block n)) : Accounted (s.after c block n) where
  connections := List.forall_mem_cons.mpr ⟨hc, h.connections⟩
  blocks := List.forall_mem_append.mpr ⟨fun b hm => hb b (Option.mem_toList.mp hm), h.blocks⟩
  count := hn

/-- A connection that was given up does not count. -/
theorem Accounted.givenUp (h : Accounted s) (fd : Int) (block : Option Block) :
    (s.numClients + 0).toNat = handed (s.after ⟨fd, 1, false⟩ block 0) := by
  rw [show s.numClients + 0 = s.numClients from BitVec.add_zero _, h.count]
  rfl

/-- A pass that finds out whether a task was created keeps the accounts. -/
theorem Accounted.pass (h : Accounted s) (hr : Recognised s o) (hx : Exit s o t) : Accounted t := by
  cases hx with
  | noClient => exact h
  | noRecord => exact h.after (Or.inl ⟨rfl, rfl⟩) (by simp) (h.givenUp _ _)
  | created handle ha hh hp hx =>
    have hlt := (hr ha hh hp).2 (by simp [hx])
    refine h.after (Or.inr ⟨rfl, rfl⟩) (by simp) ?_
    show (s.numClients + 1).toNat = handed s + 1
    rw [BitVec.toNat_add, h.count]
    exact Nat.mod_eq_of_lt (Nat.succ_lt_succ hlt)
  | notCreated => exact h.after (Or.inl ⟨rfl, rfl⟩) (by simp) (h.givenUp _ _)
  | unrecognised ha hh hp hx hc =>
    exact absurd ((hr ha hh hp).1 hx) hc

/-- One that does not, or that creates one task too many, breaks them. -/
theorem Exit.not_accounted (hr : ¬ Recognised s o) (hx : Exit s o t) : ¬ Accounted t := by
  cases hx with
  | noClient ha => exact absurd (fun hle => absurd ha (Int.not_lt.mpr hle)) hr
  | noRecord _ hno =>
    refine absurd (fun _ hh hp => ?_) hr
    rcases hno with hno | hno
    · rw [hno] at hh
      cases hh
    · exact absurd hno hp
  | created handle ha hh hp hx =>
    intro ht
    have hge : ¬ handed s < 65535 :=
      fun hlt => hr fun _ _ _ => ⟨fun hnone => by simp [hx] at hnone, fun _ => hlt⟩
    have hcount : (s.numClients + 1).toNat = handed s + 1 := ht.count
    have hlt := (s.numClients + 1).isLt
    omega
  | notCreated ha hh hp hx hc => exact absurd (fun _ _ _ => ⟨fun _ => hc, fun hne => absurd hx hne⟩) hr
  | unrecognised ha hh hp hx hc =>
    intro ht
    rcases ht.connections _ List.mem_cons_self with h | h
    · cases h.1
    · cases h.2

end

theorem accounted_init {s : Server} (h : acceptLoop.init s) : Accounted s := by
  obtain ⟨hn, hc, hb⟩ := h
  refine ⟨by simp [hc], by simp [hb], ?_⟩
  rw [hn, handed, hc]
  rfl

/-- The accounts are in order behind every pass if and only if every pass that gets to `xTaskCreate`
finds NULL in `task_handle` if no task is created, and at most 65535 connections are handed to
tasks. -/
theorem accounted_iff {s t : Server} {os : List Outcome} (hs : acceptLoop.init s)
    (h : acceptLoop.Run Lts.any s os t) :
    acceptLoop.Always Accounted s os t ↔ acceptLoop.Run Recognised s os t :=
  h.always_iff (accounted_init hs) (fun _ h => h)
    (fun s o _ h _ hr hn => h.pass hr (Option.some.inj hn ▸ acceptPass_exit s o))
    fun s o _ _ _ hr hn => (Option.some.inj hn ▸ acceptPass_exit s o : Exit s o _).not_accounted hr

/-- A server with a handler. -/
def server : Server := ⟨true, 0, 0, [], []⟩

/-- A connection that is accepted with `handle` in the record, and a block for it, but no task. -/
def noTask (handle : Pointer) : Outcome := ⟨5, ⟨0, handle, 0⟩, 0x20004000, none⟩

/-- Twice no task is created, and then one. -/
theorem accounted_iff_server :
    let os := [noTask 0, noTask 0, { noTask 0 with xTaskCreate := some ⟨0x20005000, by decide⟩ }]
    ∃ t, acceptLoop.Always Accounted server os t := by
  intro os
  have h := Lts.Run.of_decide acceptLoop Recognised server os (by decide)
  exact ⟨_, (accounted_iff ⟨rfl, rfl, rfl⟩ (h.mono fun _ _ _ => trivial)).mpr h⟩

/-- With something else than NULL in the record the connection is neither closed nor handed to a task. -/
theorem not_accounted : ¬ ∀ (s t : Server) (os : List Outcome), acceptLoop.init s →
    acceptLoop.Run Lts.any s os t → acceptLoop.Always Accounted s os t := by
  intro h
  have hrun := Lts.Run.any_of_exec acceptLoop server [noTask 0x20001000] (by decide)
  have hbad := (h server _ _ ⟨rfl, rfl, rfl⟩ hrun).2.connections ⟨5, 0, false⟩ (by decide)
  exact absurd hbad (by decide)

end Rs485.SocketServer
