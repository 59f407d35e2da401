import Rs485.Proof.Zigbee.Replies
import Rs485.Proof.Zigbee.Steps

/-!
# The request queue and its storage

`zigbee_init` tells the queue that `event_list` has as many elements as it has
bytes. The queue keeps the order of the requests all the same (`QueueInv`), but its
indices and copies leave the list with the tenth request accepted
(`queue_iff`).
-/

namespace Rs485.Zigbee

open Rs485.Framework Rs485.Utils

/-- The queue stays inside `event_list`, refuses a request when all its elements are taken, and
has lost and reordered nothing. -/
structure InStorage (s : Module) : Prop where
  head : s.mesh.eventQueue.head < eventListLen
  tail : s.mesh.eventQueue.tail < eventListLen
  copies : s.mesh.eventQueue.buff.Within () eventListLen
  refuses : (contents s.mesh.eventQueue).length = eventListLen →
    ∀ f cb arg, ∃ e, Request.call f cb arg s.mesh = (false, { s.mesh with eventTmp := e })
  fifo : s.accepted.map Prod.fst = s.started.map Prod.fst ++ contents s.mesh.eventQueue

/-- A request is queued only while `head` is not the last index of `event_list`, so at most nine
since `zigbee_init`. -/
def NotTenth (s : Module) : ZigbeeAct → Prop
  | .request f _ _ => Taken f s.mesh → s.mesh.eventQueue.head + 1 < eventListLen
  | _ => True

instance (s : Module) : (a : ZigbeeAct) → Decidable (NotTenth s a)
  | .request _ _ _ => inferInstanceAs (Decidable (_ → _))
  | .setParam _ => .isTrue trivial
  | .poll _ _ => .isTrue trivial
  | .process => .isTrue trivial
  | .ret => .isTrue trivial

/-- Where the queue's indices are, and which elements were copied, after so many requests. -/
structure Placed (s : Module) : Prop where
  len : s.mesh.eventQueue.len = sizeofEventList
  head : s.mesh.eventQueue.head = s.accepted.length % sizeofEventList
  tail : s.mesh.eventQueue.tail = s.started.length % sizeofEventList
  copies : ∀ i, ((), i) ∈ s.mesh.eventQueue.buff.log ↔ i < min s.accepted.length sizeofEventList

section

variable {s t : Module}

theorem Placed.of_init (h : zigbee.init s) : Placed s := by
  obtain ⟨z, hlog, rfl⟩ := h
  exact ⟨rfl, rfl, rfl, fun i => by simp [zigbeeInit, cqueueInitStatic, hlog]⟩

/-- No more requests were started than accepted. -/
theorem QueueInv.length (h : QueueInv s) :
    s.accepted.length = s.started.length + s.mesh.eventQueue.count := by
  have := congrArg List.length h.fifo
  simpa using this

theorem Placed.step {a : ZigbeeAct} (h : Placed s) (hinv : QueueInv s) (hstep : QueueStep s t a) :
    Placed t := by
  obtain ⟨hlen, hhead, htail, hcopies⟩ := h
  have hpos : 0 < s.mesh.eventQueue.len := by rw [hlen]; decide
  cases hstep with
  | keep hq ha hst =>
    exact ⟨by rw [hq, hlen], by rw [hq, ha, hhead], by rw [hq, hst, htail], by rw [hq, ha]; exact hcopies⟩
  | send e _ _ htaken hq ha hst =>
    have hlt : s.mesh.eventQueue.head < sizeofEventList := hlen ▸ hinv.wf.head_lt hpos
    rw [send_room htaken.1] at hq
    refine ⟨by rw [hq]; exact hlen, ?_, by rw [hq, hst]; exact htail, fun i => ?_⟩
    · simp only [hq, ha, hlen, hhead, Nat.mod_add_mod, List.length_append, List.length_singleton]
    · simp only [hq, ha, Mem.store, List.mem_cons, Prod.mk.injEq, true_and, hcopies, List.length_append,
        List.length_singleton]
      -- In the first round `head` is the number of requests, and later an index copied before.
      rcases Nat.lt_or_ge s.accepted.length sizeofEventList with hl | hl
      · rw [Nat.mod_eq_of_lt hl] at hhead
        omega
      · omega
  | take e frame hfirst _ hq ha hst =>
    have hcount : s.mesh.eventQueue.count ≠ 0 := by
      rw [← length_contents, hfirst]
      exact nofun
    have hlength := hinv.length
    have hlt : s.mesh.eventQueue.tail < sizeofEventList := hlen ▸ hinv.wf.tail hpos
    have hle : s.mesh.eventQueue.tail ≤ s.started.length := htail ▸ Nat.mod_le _ _
    rw [receive_some hcount] at hq
    refine ⟨by rw [hq]; exact hlen, by rw [hq, ha]; exact hhead, ?_, fun i => ?_⟩
    · simp only [hq, hst, hlen, htail, Nat.mod_add_mod, List.length_append, List.length_singleton]
    · simp only [hq, ha, Mem.touch, List.mem_cons, Prod.mk.injEq, true_and, hcopies]
      omega

/-- Up to the tenth request `head` counts them. -/
theorem Placed.head_eq (h : Placed s) (hnine : s.accepted.length < eventListLen) :
    s.mesh.eventQueue.head = s.accepted.length := by
  rw [h.head, Nat.mod_eq_of_lt (Nat.lt_trans hnine (by decide))]

/-- With at most nine requests everything lies in `event_list`. -/
theorem Placed.inStorage (h : Placed s) (hinv : QueueInv s) (hnine : s.accepted.length < eventListLen) :
    InStorage s := by
  have hlength := hinv.length
  simp only [eventListLen] at hnine
  refine ⟨?_, ?_, fun i hi => ?_, fun hfull => ?_, hinv.fifo⟩
  · rw [h.head_eq hnine]
    exact hnine
  · rw [h.tail]
    simp only [eventListLen, sizeofEventList, sizeofZigbeeEvent]
    omega
  · have := (h.copies i).mp hi
    simp only [eventListLen]
    omega
  · simp only [length_contents, eventListLen] at hfull
    omega

/-- With the tenth request an index leaves `event_list`, with the eleventh a copy. -/
theorem Placed.not_inStorage (h : Placed s) (hten : eventListLen ≤ s.accepted.length) :
    ¬ InStorage s := by
  intro hin
  by_cases heq : s.accepted.length = eventListLen
  · have hhead := hin.head
    rw [h.head, heq] at hhead
    exact absurd hhead (by decide)
  · have hlt : eventListLen < min s.accepted.length sizeofEventList :=
      Nat.lt_min.mpr ⟨Nat.lt_of_le_of_ne hten (Ne.symm heq), by decide⟩
    exact absurd (hin.copies eventListLen ((h.copies eventListLen).mpr hlt)) (Nat.lt_irrefl _)

/-- A request that is queued is one more. -/
theorem QueueStep.accepted_length {a : ZigbeeAct} (hs : QueueStep s t a) :
    (t.accepted.length = s.accepted.length ∧ ∀ f cb arg, a = .request f cb arg → ¬ Taken f s.mesh) ∨
      (t.accepted.length = s.accepted.length + 1 ∧
        ∃ f cb arg, a = .request f cb arg ∧ Taken f s.mesh) := by
  cases hs with
  | keep hq ha hst href => exact Or.inl ⟨by rw [ha], href⟩
  | send e _ _ htaken hq ha hst => exact Or.inr ⟨by rw [ha, List.length_append]; rfl, _, _, _, rfl, htaken⟩
  | take e frame hfirst hframe hq ha hst => exact Or.inl ⟨by rw [ha], nofun⟩

end

/-- After a run from `zigbee_init` the queue lies inside its storage, refuses when it is full, and keeps
every request in order, if and only if each request that was queued came while `head` was not
the last index of `event_list`. -/
theorem queue_iff (s t : Module) (as : List ZigbeeAct) (hi : zigbee.init s)
    (hr : zigbee.Run Lts.any s as t) : InStorage t ↔ zigbee.Run NotTenth s as t := by
  have hnine : s.accepted.length < eventListLen := by
    obtain ⟨z, -, rfl⟩ := hi
    exact Nat.zero_lt_succ _
  refine hr.kept_iff (J := fun s => QueueInv s ∧ Placed s)
    (I := fun s => s.accepted.length < eventListLen) (B := fun s => eventListLen ≤ s.accepted.length)
    ⟨.of_init hi, .of_init hi⟩ hnine (fun s a t hs _ hn => ?_) (fun s a t hs hlt _ hok hn => ?_)
    (fun s a t hs hlt _ hbad hn => ?_) (fun s a t hs hle _ hn => ?_)
    (fun hs hlt => hs.2.inStorage hs.1 hlt) fun hs hle => hs.2.not_inStorage hle
  · have hstep := QueueStep.of_next hs.1 hn
    exact ⟨hs.1.step hstep, hs.2.step hs.1 hstep⟩
  · rcases (QueueStep.of_next hs.1 hn).accepted_length with ⟨hlen, -⟩ | ⟨hlen, f, cb, arg, rfl, htaken⟩
    · rw [hlen]
      exact hlt
    · have hhead := hok htaken
      rw [hs.2.head_eq hlt] at hhead
      rw [hlen]
      exact hhead
  · rcases (QueueStep.of_next hs.1 hn).accepted_length with ⟨hlen, href⟩ | ⟨hlen, f, cb, arg, rfl, htaken⟩
    · cases a with
      | request f cb arg => exact absurd (fun h => absurd h (href f cb arg rfl)) hbad
      | _ => exact absurd trivial hbad
    · obtain ⟨-, hhead⟩ := Classical.not_imp.mp hbad
      rw [hs.2.head_eq hlt] at hhead
      rw [hlen]
      exact Nat.le_of_not_lt hhead
  · rcases (QueueStep.of_next hs.1 hn).accepted_length with ⟨hlen, -⟩ | ⟨hlen, -⟩
    · rw [hlen]
      exact hle
    · rw [hlen]
      exact Nat.le_succ_of_le hle

/-- A mesh of zeros after `zigbee_init`. -/
def start : Module := ⟨zigbeeInit (waiting .none []), .idle, [], [], [], [], []⟩

theorem start_init : zigbee.init start := ⟨waiting .none [], rfl, rfl⟩

/-- `rf_app_init` makes three requests, of which a poll takes the first. -/
def rfApp : List ZigbeeAct :=
  [.request .connect 1 0, .request .readModule 2 0, .request .resetModule 3 0, .poll 1 noReply]

theorem queue_iff_rfApp :
    InStorage (zigbee.exec (fun _ _ => true) start rfApp).1 ↔
      zigbee.Run NotTenth start rfApp (zigbee.exec (fun _ _ => true) start rfApp).1 := by
  have hr := Lts.Run.any_of_exec zigbee start rfApp (by decide)
  exact queue_iff _ _ _ start_init hr

/-- Eleven requests before the first poll: the last one is copied behind the list. -/
theorem not_queue : ¬ ∀ s : Module, zigbee.Reach Lts.any s →
    s.mesh.eventQueue.buff.Within () eventListLen := by
  intro h
  have hr := Lts.Run.any_of_exec zigbee start
    (List.replicate 11 (.request .connect 1 0)) (by decide)
  exact absurd (h _ ⟨_, _, start_init, hr⟩ 10 (by decide)) (by decide)

end Rs485.Zigbee
