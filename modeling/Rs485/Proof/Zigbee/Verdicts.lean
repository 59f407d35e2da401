import Rs485.Proof.Zigbee.Queue

/-!
# What a callback is told

A poll that finishes a request calls back at two sites: with a timeout if there was
no reply, and with the parser's result unless that is a failure. So a request gets
the one result it should if and only if a reply that came is well formed, and the
buffer holds no earlier reply of its kind when none came (`one_verdict_iff`).
-/

namespace Rs485.Zigbee

open Rs485.Framework Rs485.Utils

/-- What `zigbeeIsInsBack` tests: the header, the length and the checksum. -/
def IsInsBack (bytes : List Byte) : Prop :=
  bytes.getD 0 0 = 0xFA ∧ bytes.length = (bytes.getD 1 0).toNat + 4 ∧
    bytes.getD (bytes.length - 1) 0 = sumXY bytes.dropLast

/-- A well-formed reply to a request: a frame, with the length and the instruction of its kind. -/
def ReplyWellFormed (event : ZigbeeEventType) (bytes : List Byte) : Prop :=
  IsInsBack bytes ∧ ∀ code ∈ parserCode event, bytes.getD 1 0 = code ∧ bytes.getD 2 0 = 0x0A

instance (bytes : List Byte) : Decidable (IsInsBack bytes) := inferInstanceAs (Decidable (_ ∧ _))

instance (event : ZigbeeEventType) (bytes : List Byte) : Decidable (ReplyWellFormed event bytes) :=
  inferInstanceAs (Decidable (_ ∧ _))

/-- The result that a request should get for the bytes received. -/
def verdictOf (event : ZigbeeEventType) (bytes : List Byte) : ZigbeeRes :=
  if bytes = [] then .timeout else if ReplyWellFormed event bytes then .success else .fail

/-- The callback was called once, with the result it should get. -/
def Verdict.Fits (v : Verdict) : Prop := v.results = [verdictOf v.event.event v.received]

instance (v : Verdict) : Decidable v.Fits := inferInstanceAs (Decidable (_ = _))

/-- Every request whose time was over, and no other, has one verdict, and that is right. -/
def OneVerdict (s : Module) : Prop :=
  s.verdicts.map Verdict.event = s.timedOut ∧ ∀ v ∈ s.verdicts, v.Fits

instance (s : Module) : Decidable (OneVerdict s) := inferInstanceAs (Decidable (_ ∧ _))

/-- A request comes with a callback, and every element copy of the queue lies in `event_list` (one
behind it would write into `buff`). -/
def AppAsks (s : Module) : ZigbeeAct → Prop
  | .request f cb _ => cb ≠ 0 ∧ (Taken f s.mesh → s.mesh.eventQueue.head < eventListLen)
  | _ => True

instance (s : Module) : (a : ZigbeeAct) → Decidable (AppAsks s a)
  | .request _ _ _ => inferInstanceAs (Decidable (_ ∧ _))
  | .setParam _ => .isTrue trivial
  | .poll _ _ => .isTrue trivial
  | .process => .isTrue trivial
  | .ret => .isTrue trivial

/-- What the parser of the request takes for its reply when there is none: any buffer for
`zigbee_query_ed_pos`, else one that begins as a reply of its kind, behind a zero byte. -/
def Stale (z : ZigbeeMesh) : Prop :=
  z.event.event = .queryPos ∨
    (parserCode z.event.event = some (z.buff 1) ∧ z.buff 0 = 0xFA ∧ z.buff 2 = 0x0A ∧ z.fwVersion1 = 0)

instance (z : ZigbeeMesh) : Decidable (Stale z) := inferInstanceAs (Decidable (_ ∨ _))

/-- The reply is well formed, or there is none and the buffer is not taken for one. -/
def ReplyFits (z : ZigbeeMesh) : Prop :=
  if z.buffLen = 0 then ¬ Stale z else ReplyWellFormed z.event.event (received z)

instance (z : ZigbeeMesh) : Decidable (ReplyFits z) := inferInstanceAs (Decidable (ite _ _ _))

/-- Each reply is so when it is parsed. -/
def RepliesFit (s : Module) : ZigbeeAct → Prop
  | .process => ReplyFits s.mesh
  | _ => True

instance (s : Module) : (a : ZigbeeAct) → Decidable (RepliesFit s a)
  | .process => inferInstanceAs (Decidable (ReplyFits s.mesh))
  | .request _ _ _ => .isTrue trivial
  | .setParam _ => .isTrue trivial
  | .poll _ _ => .isTrue trivial
  | .ret => .isTrue trivial

/-! ## One reply -/

section

variable {z : ZigbeeMesh}

theorem received_eq_nil : received z = [] ↔ z.buffLen = 0 := by
  rw [← List.length_eq_zero_iff, length_received]

/-- Without a reply the parsers look at what the buffer held. -/
theorem accepts_none : Accepts z.event.event 0 z ↔ Stale z := by
  cases hc : parserCode z.event.event with
  | none => simp [Accepts, Stale, hc]
  | some code =>
    have hq : z.event.event ≠ .queryPos := fun h => by rw [h] at hc; cases hc
    have hright : Right code 0 z ↔ z.buff 0 = 0xFA ∧ z.buff 1 = code ∧ z.buff 2 = 0x0A ∧ z.fwVersion1 = 0 :=
      Iff.rfl
    simp only [Accepts, Stale, hc, hright, hq, false_or, Option.some.injEq]
    constructor
    · rintro ⟨h0, h1, h2, h3⟩
      exact ⟨h1.symm, h0, h2, h3⟩
    · rintro ⟨h1, h0, h2, h3⟩
      exact ⟨h0, h1.symm, h2, h3⟩

/-- A well-formed reply is accepted. -/
theorem accepts_wellFormed {f : Request} (hf : z.event.event = f.kind)
    (h : ReplyWellFormed z.event.event (received z)) : Accepts z.event.event z.buffLen z := by
  obtain ⟨⟨h0, hlen, hsum⟩, hcode⟩ := h
  cases hc : parserCode z.event.event with
  | none =>
    have hq : z.event.event = .queryPos := by
      rw [hf] at hc ⊢
      cases f <;> first | rfl | cases hc
    rw [hq]
    exact rfl
  | some code =>
    have hlong : 3 ≤ z.buffLen := by
      rw [length_received] at hlen
      omega
    obtain ⟨h1, h2⟩ := hcode code hc
    simp only [Accepts, hc]
    exact (right_received _ hlong).mpr ⟨h0, h1, h2, hsum⟩

/-- The results of the two callback sites. -/
def siteResults (z : ZigbeeMesh) (accepted : Bool) : List ZigbeeRes :=
  (if z.buffLen = 0 then [.timeout] else []) ++ if accepted then [.success] else []

/-- They are the one result there should be if and only if the reply fits. -/
theorem siteResults_iff {f : Request} (hf : z.event.event = f.kind) :
    siteResults z (Accepts z.event.event z.buffLen z) = [verdictOf z.event.event (received z)] ↔
      ReplyFits z := by
  rw [siteResults, verdictOf, ReplyFits]
  by_cases hnone : z.buffLen = 0
  · rw [if_pos hnone, if_pos (received_eq_nil.mpr hnone), if_pos hnone, hnone]
    by_cases ha : Stale z
    · simp [accepts_none.mpr ha, ha]
    · simp [mt accepts_none.mp ha, ha]
  · rw [if_neg hnone, if_neg (mt received_eq_nil.mp hnone), if_neg hnone]
    by_cases hw : ReplyWellFormed z.event.event (received z)
    · simp [accepts_wellFormed hf hw, hw]
    · by_cases ha : Accepts z.event.event z.buffLen z <;> simp [ha, hw]

end

theorem siteResults_true (z : ZigbeeMesh) :
    siteResults z true = siteResults z false ++ [.success] := by simp [siteResults]

/-! ## The phases of a poll -/

/-- A request as the application makes them. -/
def Asked (e : ZigbeeEvent) : Prop := e.cb ≠ 0 ∧ ∃ f : Request, e.event = f.kind

/-- Where a request is between its timeout and its verdict. -/
structure Progress (s : Module) : Prop where
  event : s.mesh.event.event ≠ .none → Asked s.mesh.event
  idle : s.pc = .idle → s.verdicts.map Verdict.event = s.timedOut
  busy : s.pc ≠ .idle → s.verdicts.map Verdict.event ++ [s.mesh.event] = s.timedOut ∧
    s.mesh.event.event ≠ .none ∧ s.mesh.buffLen ≤ zigbeeBufferSize
  timeout : s.pc = .timeoutCb ∨ s.pc = .process → s.current = siteResults s.mesh false

/-- The results so far are those there should be. -/
def SoFar (s : Module) : Prop :=
  (∀ v ∈ s.verdicts, v.Fits) ∧
    (s.pc = .resultCb → s.current = [verdictOf s.mesh.event.event (received s.mesh)])

section

variable {s t : Module}

/-- The requests that wait were made by the application. -/
theorem asked_step {a : ZigbeeAct} (hq : QueueInv s) (hs : QueueStep s t a) (ha : AppAsks s a)
    (h : ∀ e ∈ contents s.mesh.eventQueue, Asked e) : ∀ e ∈ contents t.mesh.eventQueue, Asked e := by
  cases hs with
  | keep hqueue => rw [hqueue]; exact h
  | send e hkind hcb htaken hqueue =>
    rw [hqueue, hq.wf.contents_send htaken.1]
    intro x hx
    rcases List.mem_append.mp hx with hx | hx
    · exact h x hx
    · rw [List.mem_singleton.mp hx]
      exact ⟨by rw [hcb]; exact ha.1, _, hkind⟩
  | take e frame hfirst _ hqueue =>
    rw [hqueue]
    exact fun x hx => h x (by rw [hfirst]; exact List.mem_cons_of_mem _ hx)

/-- A request taken by the beginning of a poll is one that waited. -/
theorem pollBegin_asked {timestamp : BitVec 32} {reply : Reply} {z : ZigbeeMesh}
    (hq : Utils.WellFormed z.eventQueue) (h : ∀ e ∈ contents z.eventQueue, Asked e)
    (he : z.event.event ≠ .none → Asked z.event)
    (hsome : (pollBegin timestamp reply z).1.event.event ≠ .none) :
    Asked (pollBegin timestamp reply z).1.event := by
  by_cases hnone : z.event.event = .none
  · cases hc : contents z.eventQueue with
    | nil =>
      have hcount : z.eventQueue.count = 0 := by rw [← length_contents, hc]; rfl
      obtain ⟨tick, timeReset, hb⟩ := pollBegin_none timestamp reply
        (Or.inr hcount : z.event.event ≠ .none ∨ _)
      rw [hb] at hsome
      exact absurd hnone hsome
    | cons e es =>
      have hasked := h e (by rw [hc]; exact List.mem_cons_self)
      have hreal : e.event ≠ .none := by
        obtain ⟨f, hf⟩ := hasked.2
        rw [hf]
        exact f.kind_ne
      obtain ⟨frame, tick, -, hb, -⟩ := pollBegin_some timestamp reply
        hq hnone hc hreal
      rw [hb]
      exact hasked
  · obtain ⟨tick, timeReset, hb⟩ := pollBegin_none timestamp reply
      (Or.inl hnone : _ ∨ z.eventQueue.count = 0)
    rw [hb]
    exact he hnone

/-- What changes neither the request in progress nor its reply. -/
theorem Progress.same {z : ZigbeeMesh} {accepted : List (ZigbeeEvent × ZigbeeParameter)}
    (h : Progress s) (he : z.event = s.mesh.event) (hl : z.buffLen = s.mesh.buffLen)
    (hb : z.buff = s.mesh.buff) :
    Progress { s with mesh := z, accepted := accepted } ∧
      (SoFar { s with mesh := z, accepted := accepted } ↔ SoFar s) := by
  have hreceived : received z = received s.mesh := by rw [received, received, hl, hb]
  have hsite : siteResults z false = siteResults s.mesh false := by rw [siteResults, siteResults, hl]
  obtain ⟨hevent, hidle, hbusy, htimeout⟩ := h
  rw [← he] at hevent hbusy
  rw [← hl] at hbusy
  rw [← hsite] at htimeout
  refine ⟨⟨hevent, hidle, hbusy, htimeout⟩, ?_⟩
  simp only [SoFar, he, hreceived]

/-- The first callback site, with a callback. -/
theorem timeoutCallback_results {z : ZigbeeMesh} (h : z.event.cb ≠ 0) :
    ((timeoutCallback z).map Callback.res).toList = siteResults z false := by
  rw [timeoutCallback, callback, if_pos h, siteResults]
  split <;> rfl

/-- A poll that starts a request or lets its time run, up to the first callback site. -/
theorem Progress.poll {timestamp : BitVec 32} {reply : Reply} (h : Progress s) (hpc : s.pc = .idle)
    (hasked : (pollBegin timestamp reply s.mesh).1.event.event ≠ .none →
      Asked (pollBegin timestamp reply s.mesh).1.event) :
    Progress (s.poll timestamp reply) ∧ (SoFar (s.poll timestamp reply) ↔ SoFar s) := by
  have hverdicts := h.idle hpc
  simp only [Module.poll]
  generalize pollBegin timestamp reply s.mesh = r at hasked
  split
  · rename_i hdue
    have hsome : r.1.event.event ≠ .none := (of_decide_eq_true hdue).2
    have hresults : ((timeoutCallback (pollRead reply r.1)).map Callback.res).toList =
        siteResults (pollRead reply r.1) false := timeoutCallback_results (hasked hsome).1
    have hlen : (pollRead reply r.1).buffLen ≤ zigbeeBufferSize := Nat.min_le_right _ _
    generalize hp : (if (timeoutCallback (pollRead reply r.1)).isSome then Pc.timeoutCb else Pc.process) = p
    have hne : p ≠ .idle ∧ p ≠ .resultCb := by
      rw [← hp]
      split <;> exact ⟨by decide, by decide⟩
    refine ⟨⟨fun _ => hasked hsome, fun hi => absurd hi hne.1, fun _ => ?_, fun _ => hresults⟩, ?_⟩
    · exact ⟨congrArg (· ++ _) hverdicts, hsome, hlen⟩
    · simp only [SoFar, hne.2, hpc, reduceCtorEq, false_imp_iff]
  · refine ⟨⟨hasked, fun _ => hverdicts, fun hne => absurd hpc hne, fun hp => ?_⟩, ?_⟩
    · rcases hp with hp | hp <;> exact absurd (hpc.symm.trans hp) (by decide)
    · simp only [SoFar, hpc, reduceCtorEq, false_imp_iff]

/-- The end of a request. -/
theorem Progress.finish (h : Progress s) (hpc : s.pc ≠ .idle) :
    Progress s.finish ∧ (SoFar s.finish ↔
      (∀ v ∈ s.verdicts, v.Fits) ∧ s.current = [verdictOf s.mesh.event.event (received s.mesh)]) := by
  obtain ⟨hbusy, -, -⟩ := h.busy hpc
  refine ⟨⟨fun hne => absurd rfl hne, fun _ => ?_, fun hne => absurd rfl hne, ?_⟩, ?_⟩
  · exact List.map_append.trans hbusy
  · rintro (hc | hc) <;> cases hc
  · have hpc' : s.finish.pc ≠ .resultCb := by simp only [Module.finish]; decide
    have hverdicts : s.finish.verdicts = s.verdicts ++ [⟨s.mesh.event, received s.mesh, s.current⟩] := rfl
    rw [SoFar, hverdicts, List.forall_mem_append, and_iff_left (fun hc => absurd hc hpc')]
    exact and_congr_right fun _ => List.forall_mem_singleton

/-- The parser and the second callback site. -/
theorem Progress.process (h : Progress s) (hpc : s.pc = .process) :
    Progress s.process ∧ (SoFar s.process ↔ SoFar s ∧ ReplyFits s.mesh) := by
  have hne : s.pc ≠ .idle := by rw [hpc]; decide
  obtain ⟨hbusy, hsome, hlen⟩ := h.busy hne
  obtain ⟨hcb, f, hf⟩ := h.event hsome
  have hcurrent := h.timeout (Or.inr hpc)
  have hmod : s.mesh.buffLen % 0x10000 = s.mesh.buffLen :=
    Nat.mod_eq_of_lt (Nat.lt_of_le_of_lt hlen (by decide))
  have hiff := siteResults_iff (z := s.mesh) hf
  have hsofar : SoFar s ↔ ∀ v ∈ s.verdicts, v.Fits := by
    simp only [SoFar, hpc, reduceCtorEq, false_imp_iff, and_true]
  obtain ⟨param, fwVersion0, reads, hw⟩ := pollProcess_eq s.mesh
  have hres : (pollProcess s.mesh).1 =
      if Accepts s.mesh.event.event s.mesh.buffLen s.mesh then .success else .fail := by
    rw [pollProcess, hmod, process_spec]
  simp only [Module.process, hw, hres, resultCallback, callback]
  by_cases ha : Accepts s.mesh.event.event s.mesh.buffLen s.mesh
  · simp only [ha, decide_true, siteResults_true, ← hcurrent] at hiff
    simp only [ha, if_true, ne_eq, reduceCtorEq, not_false_eq_true, hcb, Option.isSome_some, Option.map_some,
      Option.toList_some]
    refine ⟨⟨fun _ => ⟨hcb, f, hf⟩, fun hi => ?_, fun _ => ⟨hbusy, hsome, hlen⟩, ?_⟩, ?_⟩
    · cases hi
    · rintro (hp | hp) <;> cases hp
    · rw [hsofar, ← hiff]
      exact and_congr_right fun _ => ⟨fun hr => hr rfl, fun hr _ => hr⟩
  · simp only [ha, decide_false, ← hcurrent] at hiff
    simp only [ha, if_false, ne_eq, not_true_eq_false, Option.isSome_none, Option.map_none,
      Option.toList_none, List.append_nil, Bool.false_eq_true]
    rw [hsofar, ← hiff]
    have hsame : Progress { s with
        mesh := { s.mesh with param := param, fwVersion0 := fwVersion0, reads := reads } } := by
      refine (h.same ?_ ?_ ?_).1 <;> rfl
    exact hsame.finish hne

end

/-! ## Runs -/

/-- What every run keeps. -/
structure VerdictInv (s : Module) : Prop where
  queue : QueueInv s
  asked : ∀ e ∈ contents s.mesh.eventQueue, Asked e
  progress : Progress s

section

variable {s t : Module}

theorem Progress.step {a : ZigbeeAct} (h : VerdictInv s) (hn : zigbee.next s a = some t) :
    Progress t ∧ (SoFar t ↔ SoFar s ∧ RepliesFit s a) := by
  obtain ⟨hq, hasked, hp⟩ := h
  cases a with
  | request f cb arg =>
    simp only [zigbee] at hn
    split at hn
    · cases hn
    · cases hn
      simp only [RepliesFit, and_true]
      by_cases hf : Taken f s.mesh
      · obtain ⟨timeout, hf⟩ := call_taken cb arg hf
        simp only [Module.request, hf]
        exact hp.same rfl rfl rfl
      · obtain ⟨e, hf⟩ := call_refused cb arg hf
        simp only [Module.request, hf]
        exact hp.same rfl rfl rfl
  | setParam param =>
    simp only [zigbee] at hn
    split at hn
    · cases hn
    · cases hn
      simp only [RepliesFit, and_true]
      exact hp.same rfl rfl rfl
  | poll timestamp reply =>
    simp only [zigbee] at hn
    split at hn
    · cases hn
      rename_i hpc
      simp only [RepliesFit, and_true]
      exact hp.poll hpc (pollBegin_asked hq.wf hasked hp.event)
    · cases hn
  | process =>
    simp only [zigbee] at hn
    split at hn
    · cases hn
      rename_i hpc
      exact hp.process hpc
    · cases hn
  | ret =>
    simp only [zigbee] at hn
    simp only [RepliesFit, and_true]
    split at hn
    · cases hn
      rename_i hpc
      have hne : s.pc ≠ .idle := by rw [hpc]; decide
      refine ⟨⟨hp.event, fun hi => ?_, fun _ => hp.busy hne, fun _ => hp.timeout (Or.inl hpc)⟩, ?_⟩
      · cases hi
      · simp only [SoFar, hpc, reduceCtorEq, false_imp_iff]
    · cases hn
      rename_i hpc
      have hne : s.pc ≠ .idle := by rw [hpc]; decide
      obtain ⟨hprogress, hiff⟩ := hp.finish hne
      refine ⟨hprogress, hiff.trans (and_congr_right fun _ => ?_)⟩
      exact ⟨fun hr _ => hr, fun hr => hr hpc⟩
    · cases hn

theorem VerdictInv.step {a : ZigbeeAct} (h : VerdictInv s) (ha : AppAsks s a)
    (hn : zigbee.next s a = some t) : VerdictInv t := by
  have hstep := QueueStep.of_next h.queue hn
  exact ⟨h.queue.step hstep, asked_step h.queue hstep ha h.asked, (Progress.step h hn).1⟩

theorem VerdictInv.of_init (h : zigbee.init s) : VerdictInv s := by
  refine ⟨.of_init h, ?_, ?_⟩ <;>
  obtain ⟨z, -, rfl⟩ := h
  · simp [zigbeeInit]
  · refine ⟨fun he => absurd rfl he, fun _ => rfl, fun hpc => absurd rfl hpc, ?_⟩
    rintro (hpc | hpc) <;> cases hpc

end

/-- In every run in which requests come with callbacks and no element copy leaves `event_list`, and
which ends outside a poll: every request whose time was over got one callback, with the
result it should get, if and only if each reply was well formed, or, where none came, the
buffer was not taken for one. -/
theorem one_verdict_iff (s t : Module) (as : List ZigbeeAct) (hi : zigbee.init s)
    (hr : zigbee.Run AppAsks s as t) (hidle : t.pc = .idle) :
    OneVerdict t ↔ zigbee.Run RepliesFit s as t := by
  have hinit : SoFar s := by
    obtain ⟨z, -, rfl⟩ := hi
    exact ⟨by simp, fun hpc => by cases hpc⟩
  have hone : Progress t → (OneVerdict t ↔ SoFar t) := fun hp => by
    rw [OneVerdict, SoFar, and_iff_right (hp.idle hidle), and_iff_left (fun hpc => ?_)]
    cases hidle.symm.trans hpc
  refine hr.kept_iff (B := fun s => ¬ SoFar s) (VerdictInv.of_init hi) hinit
    (fun s a t hs ha hn => hs.step ha hn) (fun s a t hs hsofar _ hok hn => ?_)
    (fun s a t hs _ _ hbad hn h => ?_) (fun s a t hs hnot _ hn h => ?_)
    (fun hs hsofar => (hone hs.progress).mpr hsofar) fun hs hnot h => hnot ((hone hs.progress).mp h)
  · exact (Progress.step hs hn).2.mpr ⟨hsofar, hok⟩
  · exact hbad ((Progress.step hs hn).2.mp h).2
  · exact hnot ((Progress.step hs hn).2.mp h).1

/-- A reply that is no frame. -/
def noise : Reply := ⟨[0x55], by decide⟩

/-- A request to connect, and the poll at which its time is over. -/
def connects (reply : Reply) : List ZigbeeAct := [.request .connect 1 0, .poll 300 reply, .process]

theorem one_verdict_iff_connects :
    OneVerdict (zigbee.exec (fun _ _ => true) start (connects linkReply ++ [.ret])).1 ↔
      zigbee.Run RepliesFit start (connects linkReply ++ [.ret])
        (zigbee.exec (fun _ _ => true) start (connects linkReply ++ [.ret])).1 := by
  have hr := Lts.Run.of_decide zigbee AppAsks start
    (connects linkReply ++ [.ret]) (by decide +kernel)
  exact one_verdict_iff _ _ _ start_init hr (by decide +kernel)

/-- A reply that is no frame is not reported. -/
theorem not_one_verdict : ¬ ∀ s : Module, zigbee.Reach AppAsks s → s.pc = .idle → OneVerdict s := by
  intro h
  have hr := Lts.Run.of_decide zigbee AppAsks start (connects noise)
    (by decide +kernel)
  have hbad := h _ ⟨_, _, start_init, hr⟩ (by decide +kernel)
  exact absurd hbad (by decide +kernel)

end Rs485.Zigbee
