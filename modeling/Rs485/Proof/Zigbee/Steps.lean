import Rs485.Proof.CQueue
import Rs485.Proof.Zigbee.Process

/-!
# What the steps of the Zigbee module do

One lemma for each step of `zigbee`: a request function refuses or queues a request
(`call_cases`), the beginning of a poll takes a request from the queue or not
(`pollBegin_cases`), and the rest of a poll leaves the queue alone.
-/

namespace Rs485.Zigbee

open Rs485.Framework Rs485.Utils

/-- The request function queues a request: there is room, and, to ask for a position, the module is the
coordinator. -/
def Taken (f : Request) (z : ZigbeeMesh) : Prop :=
  z.eventQueue.count ≠ z.eventQueue.len ∧ (f = .queryEdPos → z.param.pointType = 1)

instance (f : Request) (z : ZigbeeMesh) : Decidable (Taken f z) := inferInstanceAs (Decidable (_ ∧ _))

/-- The kind of a request. -/
def Request.kind : Request → ZigbeeEventType
  | .connect => .linkModule
  | .resetModule => .resetModule
  | .readModule => .readModule
  | .writeModule => .writeModule
  | .requestSignal => .getPosition
  | .queryEdPos => .queryPos

theorem Request.kind_ne (f : Request) : f.kind ≠ .none := by cases f <;> exact nofun

section

variable {event : ZigbeeEventType} {timeout : BitVec 32} {cb arg : Pointer} {z : ZigbeeMesh}

theorem request_full (h : z.eventQueue.count = z.eventQueue.len) :
    request event timeout cb arg z =
      (false, { z with eventTmp := ⟨timeout, 0, event, arg, cb⟩ }) := by
  simp only [request, send_full h]

theorem request_room (h : z.eventQueue.count ≠ z.eventQueue.len) :
    request event timeout cb arg z =
      (true, { z with
        eventTmp := ⟨timeout, 0, event, arg, cb⟩
        eventQueue := (cqueueSend z.eventQueue ⟨timeout, 0, event, arg, cb⟩).2 }) := by
  simp only [request, send_room h]

/-- A request function is `request` with its own event and timeout, or refuses at once. -/
theorem call_eq (f : Request) (cb arg : Pointer) (z : ZigbeeMesh) :
    (f = .queryEdPos ∧ z.param.pointType ≠ 1 ∧ f.call cb arg z = (false, z)) ∨
      ((f = .queryEdPos → z.param.pointType = 1) ∧
        ∃ timeout, f.call cb arg z = request f.kind timeout cb arg z) := by
  cases f with
  | queryEdPos =>
    by_cases hp : z.param.pointType = 1
    · exact Or.inr ⟨fun _ => hp, 2000, if_neg (not_not_intro hp)⟩
    · exact Or.inl ⟨rfl, hp, if_pos hp⟩
  | _ => exact Or.inr ⟨nofun, _, rfl⟩

variable (cb arg) in
/-- A request that is not taken changes `event_tmp` at most. -/
theorem call_refused {f : Request} (h : ¬ Taken f z) :
    ∃ e, f.call cb arg z = (false, { z with eventTmp := e }) := by
  rcases call_eq f cb arg z with ⟨-, -, hf⟩ | ⟨hp, timeout, hf⟩
  · exact ⟨z.eventTmp, hf⟩
  · rw [hf]
    by_cases hfull : z.eventQueue.count = z.eventQueue.len
    · exact ⟨_, request_full hfull⟩
    · exact absurd ⟨hfull, hp⟩ h

variable (cb arg) in
/-- One that is taken is put behind the others. -/
theorem call_taken {f : Request} (h : Taken f z) :
    ∃ timeout, f.call cb arg z =
      (true, { z with
        eventTmp := ⟨timeout, 0, f.kind, arg, cb⟩
        eventQueue := (cqueueSend z.eventQueue ⟨timeout, 0, f.kind, arg, cb⟩).2 }) := by
  rcases call_eq f cb arg z with ⟨hf, hp, -⟩ | ⟨-, timeout, hf⟩
  · exact absurd (h.2 hf) hp
  · exact ⟨timeout, hf.trans (request_room h.1)⟩

end

/-! ## The poll -/

section

variable {timestamp : BitVec 32} {reply : Reply} {z : ZigbeeMesh}

theorem pollTick_eq (timestamp : BitVec 32) (z : ZigbeeMesh) :
    ∃ tick, pollTick timestamp z = { z with event.tick := tick } := by
  rw [pollTick]
  split
  · exact ⟨_, rfl⟩
  · exact ⟨z.event.tick, rfl⟩

theorem pollIdle_eq (timestamp : BitVec 32) (reply : Reply) (z : ZigbeeMesh) :
    ∃ timeReset, pollIdle timestamp reply z = { z with timeReset := timeReset } := by
  simp only [pollIdle]
  split <;> split <;> exact ⟨_, rfl⟩

theorem eventFrame_isSome {p : ZigbeeParameter} {event : ZigbeeEventType} (h : event ≠ .none) :
    ∃ frame, eventFrame p event = some frame := by
  cases event <;> first | exact absurd rfl h | exact ⟨_, rfl⟩

variable (timestamp reply) in
/-- The beginning of a poll takes no request: one is in progress, or none is queued. -/
theorem pollBegin_none (h : z.event.event ≠ .none ∨ z.eventQueue.count = 0) :
    ∃ tick timeReset, pollBegin timestamp reply z =
      ({ z with event.tick := tick, timeReset := timeReset }, none) := by
  by_cases he : z.event.event = .none
  · have hcount : ¬ 0 < z.eventQueue.count := by
      rcases h with h | h
      · exact absurd he h
      · omega
    have hstart : pollStart timestamp reply z = (pollIdle timestamp reply z, none) := by
      simp only [pollStart, pollTake, hcount, if_false, he, eventFrame, if_true]
    obtain ⟨timeReset, hidle⟩ := pollIdle_eq timestamp reply z
    obtain ⟨tick, htick⟩ := pollTick_eq timestamp { z with timeReset := timeReset }
    refine ⟨tick, timeReset, ?_⟩
    simp only [pollBegin, hstart, hidle, htick]
  · obtain ⟨tick, htick⟩ := pollTick_eq timestamp z
    refine ⟨tick, z.timeReset, ?_⟩
    simp only [pollBegin, pollStart, he, if_false, htick]

variable (timestamp reply) in
/-- The beginning of a poll takes the first request and sends its frame. -/
theorem pollBegin_some {e : ZigbeeEvent} {es : List ZigbeeEvent} (hq : WellFormed z.eventQueue)
    (he : z.event.event = .none) (hes : contents z.eventQueue = e :: es) (hreal : e.event ≠ .none) :
    ∃ frame tick, eventFrame z.param e.event = some frame ∧ pollBegin timestamp reply z =
      ({ z with eventQueue := (cqueueReceive z.eventQueue).2, event := { e with tick := tick } },
        some (e, frame)) ∧ contents (cqueueReceive z.eventQueue).2 = es := by
  have hcount : z.eventQueue.count ≠ 0 := by
    have hlen := congrArg List.length hes
    rw [length_contents, List.length_cons] at hlen
    omega
  have hfirst := hq.contents_receive hcount
  rw [hes, List.cons.injEq] at hfirst
  obtain ⟨hhead, htail⟩ := hfirst
  have htake : pollTake z =
      { z with eventQueue := (cqueueReceive z.eventQueue).2, event := e } := by
    rw [pollTake, if_pos (Nat.pos_of_ne_zero hcount), hhead, receive_some hcount]
    rfl
  obtain ⟨frame, hframe⟩ := eventFrame_isSome (p := z.param) hreal
  obtain ⟨tick, htick⟩ := pollTick_eq timestamp
    { z with eventQueue := (cqueueReceive z.eventQueue).2, event := e }
  refine ⟨frame, tick, hframe, ?_, htail.symm⟩
  simp only [pollBegin, pollStart, he, if_true, htake, hframe, htick]

/-- A parser changes parameters and version at most. -/
theorem pollProcess_eq (z : ZigbeeMesh) :
    ∃ param fwVersion0 reads, (pollProcess z).2 =
      { z with param := param, fwVersion0 := fwVersion0, reads := reads } := by
  rw [pollProcess, process_spec]
  exact ⟨_, _, _, rfl⟩

end

/-! ## The requests of a run -/

/-- The queue of a run: well formed, with real requests in it; and every request accepted was started
or still waits, in the order of acceptance. -/
structure QueueInv (s : Module) : Prop where
  wf : WellFormed s.mesh.eventQueue
  real : ∀ e ∈ contents s.mesh.eventQueue, e.event ≠ .none
  fifo : s.accepted.map Prod.fst = s.started.map Prod.fst ++ contents s.mesh.eventQueue

/-- What a step does to the queue. -/
inductive QueueStep (s t : Module) : ZigbeeAct → Prop
  | keep {a : ZigbeeAct} (queue : t.mesh.eventQueue = s.mesh.eventQueue)
    (accepted : t.accepted = s.accepted) (started : t.started = s.started)
    (refused : ∀ f cb arg, a = .request f cb arg → ¬ Taken f s.mesh) : QueueStep s t a
  | send {f : Request} {cb arg : Pointer} (e : ZigbeeEvent) (kind : e.event = f.kind) (cb_eq : e.cb = cb)
    (taken : Taken f s.mesh) (queue : t.mesh.eventQueue = (cqueueSend s.mesh.eventQueue e).2)
    (accepted : t.accepted = s.accepted ++ [(e, s.mesh.param)]) (started : t.started = s.started) :
    QueueStep s t (.request f cb arg)
  | take {timestamp : BitVec 32} {reply : Reply} (e : ZigbeeEvent) (frame : List Byte)
    (first : contents s.mesh.eventQueue = e :: contents (cqueueReceive s.mesh.eventQueue).2)
    (frame_eq : eventFrame s.mesh.param e.event = some frame)
    (queue : t.mesh.eventQueue = (cqueueReceive s.mesh.eventQueue).2)
    (accepted : t.accepted = s.accepted) (started : t.started = s.started ++ [(e, frame)]) :
    QueueStep s t (.poll timestamp reply)

section

variable {s t : Module}

@[simp] theorem poll_accepted (timestamp : BitVec 32) (reply : Reply) :
    (s.poll timestamp reply).accepted = s.accepted := by
  simp only [Module.poll]; split <;> rfl

@[simp] theorem poll_started (timestamp : BitVec 32) (reply : Reply) :
    (s.poll timestamp reply).started = s.started ++ (pollBegin timestamp reply s.mesh).2.toList := by
  simp only [Module.poll]; split <;> rfl

@[simp] theorem poll_queue (timestamp : BitVec 32) (reply : Reply) :
    (s.poll timestamp reply).mesh.eventQueue = (pollBegin timestamp reply s.mesh).1.eventQueue := by
  simp only [Module.poll]; split <;> rfl

theorem process_keeps (s : Module) : s.process.mesh.eventQueue = s.mesh.eventQueue ∧
    s.process.accepted = s.accepted ∧ s.process.started = s.started := by
  obtain ⟨param, fwVersion0, reads, h⟩ := pollProcess_eq s.mesh
  simp only [Module.process, Module.finish, pollEnd, h]
  split <;> exact ⟨rfl, rfl, rfl⟩

theorem QueueStep.request (f : Request) (cb arg : Pointer) :
    QueueStep s (s.request f cb arg) (.request f cb arg) := by
  by_cases h : Taken f s.mesh
  · obtain ⟨timeout, hf⟩ := call_taken cb arg h
    refine .send ⟨timeout, 0, f.kind, arg, cb⟩ rfl rfl h ?_ ?_ rfl <;>
    simp only [Module.request, hf, if_true]
  · obtain ⟨e, hf⟩ := call_refused cb arg h
    refine .keep ?_ ?_ rfl fun f' cb' arg' ha => ?_
    · simp only [Module.request, hf]
    · simp only [Module.request, hf, Bool.false_eq_true, if_false]
    · cases ha
      exact h

theorem QueueStep.poll (hs : QueueInv s) (timestamp : BitVec 32) (reply : Reply) :
    QueueStep s (s.poll timestamp reply) (.poll timestamp reply) := by
  by_cases he : s.mesh.event.event = .none
  · cases hc : contents s.mesh.eventQueue with
    | nil =>
      have hcount : s.mesh.eventQueue.count = 0 := by rw [← length_contents, hc]; rfl
      obtain ⟨tick, timeReset, hb⟩ := pollBegin_none timestamp reply
        (Or.inr hcount : s.mesh.event.event ≠ .none ∨ _)
      refine .keep ?_ (by simp) ?_ nofun <;> simp [hb]
    | cons e es =>
      obtain ⟨frame, tick, hframe, hb, hes⟩ := pollBegin_some timestamp reply
        hs.wf he hc (hs.real e (by simp [hc]))
      refine .take e frame (by rw [hc, hes]) hframe ?_ (by simp) ?_ <;> simp [hb]
  · obtain ⟨tick, timeReset, hb⟩ := pollBegin_none timestamp reply
      (Or.inl he : _ ∨ s.mesh.eventQueue.count = 0)
    refine .keep ?_ (by simp) ?_ nofun <;> simp [hb]

theorem QueueStep.of_next {a : ZigbeeAct} (hs : QueueInv s) (hn : zigbee.next s a = some t) :
    QueueStep s t a := by
  cases a with
  | request f cb arg =>
    simp only [zigbee] at hn
    split at hn
    · cases hn
    · cases hn; exact .request f cb arg
  | setParam param =>
    simp only [zigbee] at hn
    split at hn
    · cases hn
    · cases hn; exact .keep rfl rfl rfl nofun
  | poll timestamp reply =>
    simp only [zigbee] at hn
    split at hn
    · cases hn; exact .poll hs timestamp reply
    · cases hn
  | process =>
    simp only [zigbee] at hn
    split at hn
    · cases hn
      obtain ⟨hq, ha, hst⟩ := process_keeps s
      exact .keep hq ha hst nofun
    · cases hn
  | ret =>
    simp only [zigbee] at hn
    split at hn
    · cases hn; exact .keep rfl rfl rfl nofun
    · cases hn; exact .keep rfl rfl rfl nofun
    · cases hn

theorem QueueInv.step {a : ZigbeeAct} (hs : QueueInv s) (h : QueueStep s t a) : QueueInv t := by
  obtain ⟨hwf, hreal, hfifo⟩ := hs
  cases h with
  | keep hq ha hst => exact ⟨by rw [hq]; exact hwf, by rw [hq]; exact hreal, by rw [hq, ha, hst]; exact hfifo⟩
  | send e he _ htaken hq ha hst =>
    have hc := hwf.contents_send htaken.1 e
    refine ⟨by rw [hq]; exact hwf.send e, ?_, ?_⟩
    · rw [hq, hc]
      intro x hx
      rcases List.mem_append.mp hx with hx | hx
      · exact hreal x hx
      · rw [List.mem_singleton.mp hx, he]; exact Request.kind_ne _
    · rw [hq, hc, ha, hst, List.map_append, hfifo, List.append_assoc]
      rfl
  | take e frame hfirst _ hq ha hst =>
    refine ⟨by rw [hq]; exact hwf.receive, ?_, ?_⟩
    · rw [hq]
      exact fun x hx => hreal x (by rw [hfirst]; exact List.mem_cons_of_mem _ hx)
    · rw [hq, ha, hst, hfifo, hfirst, List.map_append, List.append_assoc]
      rfl

theorem QueueInv.of_init (h : zigbee.init s) : QueueInv s := by
  obtain ⟨z, -, rfl⟩ := h
  exact ⟨wellFormed_init _ _, by simp [zigbeeInit], by simp [zigbeeInit]⟩

end

end Rs485.Zigbee
