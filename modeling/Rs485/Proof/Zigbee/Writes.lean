import Rs485.Proof.Zigbee.Queue

/-!
# Parameter updates that wait

`zigbee_write_module` queues a request, and its frame is made from the parameters
at the time it is sent. `writes_kept`: the frame encodes the parameters at the
time of the call as long as, while a write waits, no reply to
`zigbee_read_module` brings parameters that encode to another frame.
-/

namespace Rs485.Zigbee

open Rs485.Framework Rs485.Utils

/-! ## Pairing what was started with what was accepted -/

section

variable {α β : Type} {xs : List α} {ys : List β}

theorem zip_concat_right {x : α} {rest : List α} (y : β) (h : xs.drop ys.length = x :: rest) :
    xs.zip (ys ++ [y]) = xs.zip ys ++ [(x, y)] := by
  induction ys generalizing xs with
  | nil =>
    cases xs with
    | nil => cases h
    | cons x' xs => cases h; simp
  | cons y' ys ih =>
    cases xs with
    | nil => cases h
    | cons x' xs => simp [ih h]

theorem zip_concat_left (x : α) (h : ys.length ≤ xs.length) : (xs ++ [x]).zip ys = xs.zip ys := by
  induction ys generalizing xs with
  | nil => simp
  | cons y ys ih =>
    cases xs with
    | nil => simp at h
    | cons x' xs => simp [ih (by simpa using h)]

end

/-- The requests accepted that were not started yet, with the parameters at the time of the call. -/
def pending (s : Module) : List (ZigbeeEvent × ZigbeeParameter) := s.accepted.drop s.started.length

/-- Every write request that was started sent the frame of the parameters at the time of its call. -/
def WritesKept (s : Module) : Prop :=
  ∀ x ∈ s.accepted.zip s.started, x.1.1.event = .writeModule → x.2.2 = zigbeeGetWriteIns x.1.2

instance (s : Module) : Decidable (WritesKept s) := inferInstanceAs (Decidable (∀ _ ∈ _, _))

/-- Every write request that waits would send, from the parameters `param`, the frame of those at the time
of its call. -/
def SameFrames (s : Module) (param : ZigbeeParameter) : Prop :=
  ∀ x ∈ pending s, x.1.event = .writeModule → zigbeeGetWriteIns param = zigbeeGetWriteIns x.2

instance (s : Module) (param : ZigbeeParameter) : Decidable (SameFrames s param) :=
  inferInstanceAs (Decidable (∀ _ ∈ _, _))

/-- The application does not change the parameters while a write request waits, and every element
copy of the queue lies in `event_list`. -/
def AppKeeps (s : Module) : ZigbeeAct → Prop
  | .setParam param => param = s.mesh.param ∨ ∀ x ∈ pending s, x.1.event ≠ .writeModule
  | .request f _ _ => Taken f s.mesh → s.mesh.eventQueue.head < eventListLen
  | _ => True

instance (s : Module) : (a : ZigbeeAct) → Decidable (AppKeeps s a)
  | .setParam _ => inferInstanceAs (Decidable (_ ∨ _))
  | .request _ _ _ => inferInstanceAs (Decidable (_ → _))
  | .poll _ _ => .isTrue trivial
  | .process => .isTrue trivial
  | .ret => .isTrue trivial

/-- No reply to `zigbee_read_module` is accepted whose parameters encode to another frame than those
of a write request that waits. -/
def RepliesKeep (s : Module) : ZigbeeAct → Prop
  | .process => s.mesh.event.event = .readModule → Accepts .readModule (s.mesh.buffLen % 0x10000) s.mesh →
    SameFrames s (readParam (body s.mesh))
  | _ => True

instance (s : Module) : (a : ZigbeeAct) → Decidable (RepliesKeep s a)
  | .process => inferInstanceAs (Decidable (_ → _))
  | .setParam _ => .isTrue trivial
  | .request _ _ _ => .isTrue trivial
  | .poll _ _ => .isTrue trivial
  | .ret => .isTrue trivial

section

variable {s t : Module}

theorem pollBegin_param (timestamp : BitVec 32) (reply : Reply) (z : ZigbeeMesh) :
    (pollBegin timestamp reply z).1.param = z.param := by
  have htick : ∀ w : ZigbeeMesh, (pollTick timestamp w).param = w.param := fun w => by
    obtain ⟨tick, h⟩ := pollTick_eq timestamp w
    rw [h]
  have hidle : ∀ w : ZigbeeMesh, (pollIdle timestamp reply w).param = w.param := fun w => by
    obtain ⟨timeReset, h⟩ := pollIdle_eq timestamp reply w
    rw [h]
  have htake : (pollTake z).param = z.param := by
    rw [pollTake]
    split <;> rfl
  simp only [pollBegin, pollStart, htick]
  split
  · split
    · exact htake
    · rw [hidle, htake]
  · rfl

theorem poll_param (timestamp : BitVec 32) (reply : Reply) :
    (s.poll timestamp reply).mesh.param = s.mesh.param := by
  simp only [Module.poll]
  split <;> exact pollBegin_param timestamp reply s.mesh

theorem process_param (s : Module) : s.process.mesh.param =
    if s.mesh.event.event = .readModule ∧ Accepts s.mesh.event.event (s.mesh.buffLen % 0x10000) s.mesh then
      readParam (body s.mesh) else s.mesh.param := by
  have hmesh : s.process.mesh.param = (pollProcess s.mesh).2.param := by
    simp only [Module.process, Module.finish, pollEnd]
    split <;> rfl
  rw [hmesh, pollProcess, process_spec]

theorem call_param (f : Request) (cb arg : Pointer) (z : ZigbeeMesh) :
    (f.call cb arg z).2.param = z.param := by
  by_cases h : Taken f z
  · obtain ⟨timeout, hf⟩ := call_taken cb arg h
    rw [hf]
  · obtain ⟨e, hf⟩ := call_refused cb arg h
    rw [hf]

/-- The write requests that wait keep their frames when the parameters change. -/
theorem sameFrames_step {a : ZigbeeAct} (h : SameFrames s s.mesh.param) (ha : AppKeeps s a)
    (hr : RepliesKeep s a) (hn : zigbee.next s a = some t) : SameFrames s t.mesh.param := by
  cases a with
  | request f cb arg =>
    simp only [zigbee] at hn
    split at hn
    · cases hn
    · cases hn
      have hp : (s.request f cb arg).mesh.param = s.mesh.param := call_param f cb arg s.mesh
      rw [hp]
      exact h
  | setParam param =>
    simp only [zigbee] at hn
    split at hn
    · cases hn
    · cases hn
      rcases ha with rfl | hnone
      · exact h
      · exact fun x hx hw => absurd hw (hnone x hx)
  | poll timestamp reply =>
    simp only [zigbee] at hn
    split at hn
    · cases hn
      rw [poll_param]
      exact h
    · cases hn
  | process =>
    simp only [zigbee] at hn
    split at hn
    · cases hn
      rw [process_param]
      split
      · rename_i hacc
        obtain ⟨he, hacc⟩ := hacc
        rw [he] at hacc
        exact hr he hacc
      · exact h
    · cases hn
  | ret =>
    simp only [zigbee] at hn
    split at hn
    · cases hn; exact h
    · cases hn; exact h
    · cases hn

/-- What the run keeps. -/
structure WritesInv (s : Module) : Prop where
  queue : QueueInv s
  frames : SameFrames s s.mesh.param
  kept : WritesKept s

/-- The requests that wait are those in the queue. -/
theorem QueueInv.pending_map (h : QueueInv s) :
    (pending s).map Prod.fst = contents s.mesh.eventQueue := by
  rw [pending, List.map_drop, h.fifo, List.drop_left' (by simp)]

theorem WritesInv.step {a : ZigbeeAct} (h : WritesInv s) (ha : AppKeeps s a) (hr : RepliesKeep s a)
    (hn : zigbee.next s a = some t) : WritesInv t := by
  have hstep := QueueStep.of_next h.queue hn
  have hsame := sameFrames_step h.frames ha hr hn
  have hle : s.started.length ≤ s.accepted.length := by
    have := h.queue.length
    omega
  refine ⟨h.queue.step hstep, ?_, ?_⟩
  · cases hstep with
    | keep hq hacc hst =>
      intro x hx
      rw [pending, hacc, hst] at hx
      exact hsame x hx
    | send e _ _ _ hq hacc hst =>
      intro x hx hw
      rw [pending, hacc, hst, List.drop_append_of_le_length hle] at hx
      rcases List.mem_append.mp hx with hx | hx
      · exact hsame x hx hw
      · -- The request just accepted: its parameters are those of now.
        rw [List.mem_singleton.mp hx]
        simp only [zigbee] at hn
        split at hn
        · cases hn
        · cases hn
          exact congrArg zigbeeGetWriteIns (call_param _ _ _ s.mesh)
    | take e frame _ _ hq hacc hst =>
      intro x hx
      rw [pending, hacc, hst, List.length_append, List.length_singleton, ← List.drop_drop] at hx
      exact hsame x (List.mem_of_mem_drop hx)
  · cases hstep with
    | keep hq hacc hst =>
      rw [WritesKept, hacc, hst]
      exact h.kept
    | send e _ _ _ hq hacc hst =>
      rw [WritesKept, hacc, hst, zip_concat_left _ hle]
      exact h.kept
    | take e frame hfirst hframe hq hacc hst =>
      -- The request started is the first that waits, so its frame is that of the parameters of now.
      have hmap := h.queue.pending_map
      rw [hfirst] at hmap
      cases hp : pending s with
      | nil => rw [hp] at hmap; cases hmap
      | cons x rest =>
        rw [hp, List.map_cons, List.cons.injEq] at hmap
        obtain ⟨hx, -⟩ := hmap
        rw [WritesKept, hacc, hst, zip_concat_right _ hp]
        intro y hy hw
        rcases List.mem_append.mp hy with hy | hy
        · exact h.kept y hy hw
        · rw [List.mem_singleton.mp hy] at hw ⊢
          have hwrite : e.event = .writeModule := by rw [← hx]; exact hw
          rw [hwrite] at hframe
          cases hframe
          exact h.frames x (by rw [hp]; exact List.mem_cons_self) hw

end

/-- In every run in which the application does not change the parameters while a write request waits,
no element copy leaves `event_list`, and no reply to `zigbee_read_module` that is accepted while a
write waits brings parameters with another frame, every write request sends the frame of the
parameters at the time of its call. -/
theorem writes_kept (s : Module) (hr : zigbee.Reach (fun s a => AppKeeps s a ∧ RepliesKeep s a) s) :
    WritesKept s := by
  have hinv : WritesInv s := by
    refine hr.inv (fun s hi => ?_) fun s a t h hok hn => h.step hok.1 hok.2 hn
    refine ⟨.of_init hi, ?_, ?_⟩ <;>
    obtain ⟨z, -, rfl⟩ := hi <;>
    exact fun x hx => absurd hx List.not_mem_nil
  exact hinv.kept

/-- A parameter block with the PAN ID 0x1234. -/
def panParam : ZigbeeParameter := { ZigbeeParameter.zero with panID := 0x1234 }

/-- A reply to `zigbee_read_module`, with parameters of zeros. -/
def readReply : Reply :=
  ⟨[0xFA, 0x31, 0x0A] ++ List.replicate 49 0 ++ [0x35], by decide⟩

/-- The application writes its parameters, after a request to read them if `early` is set, and polls
until the write is sent. -/
def writeParams (early : Bool) : List ZigbeeAct :=
  [.setParam panParam] ++ (if early then [.request .readModule 0 0] else []) ++
  [.request .writeModule 0 0] ++ (if early then [.poll 1000 readReply, .process] else []) ++ [.poll 1 noReply]

theorem writes_kept_writeParams :
    WritesKept (zigbee.exec (fun _ _ => true) start (writeParams false)).1 := by
  have hr := Lts.Run.of_decide zigbee (fun s a => AppKeeps s a ∧ RepliesKeep s a) start
    (writeParams false) (by decide +kernel)
  exact writes_kept _ ⟨_, _, start_init, hr⟩

/-- The reply to a request made before the write brings other parameters: these are written. -/
theorem not_writes_kept : ¬ ∀ s : Module, zigbee.Reach AppKeeps s → WritesKept s := by
  intro h
  have hr := Lts.Run.of_decide zigbee AppKeeps start (writeParams true)
    (by decide +kernel)
  have hbad := h _ ⟨_, _, start_init, hr⟩
  exact absurd hbad (by decide +kernel)

end Rs485.Zigbee
