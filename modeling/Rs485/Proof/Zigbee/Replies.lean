import Rs485.Proof.Zigbee.Process

/-!
# Replies and what an earlier reply left in the buffer

A poll that completes a request reads `buff` only where it received bytes, and so
does not depend on what an earlier reply left there, if and only if it received
as many bytes as the parser of the request reads (`independent_iff`).
-/

namespace Rs485.Zigbee

open Rs485.Framework

/-- As many bytes as the parser of the event reads: three for the header, and, if it accepts, up to
the version (`zigbee_connect`) or up to the end of the parameters (`zigbee_read_module`). -/
def Enough (event : ZigbeeEventType) (bytes : List Byte) : Prop :=
  match parserCode event with
  | some code => 3 ≤ bytes.length ∧ (ReplyRight code bytes →
      (event = .linkModule → 9 ≤ bytes.length) ∧ (event = .readModule → 52 ≤ bytes.length))
  | none => True

/-- Every index read is that of a byte received. -/
def ReadsReceived (n : Nat) (reads : List Int) : Prop := ∀ i ∈ reads, 0 ≤ i ∧ i < n

section

variable {n : Nat} {xs ys : List Int}

theorem readsReceived_append :
    ReadsReceived n (xs ++ ys) ↔ ReadsReceived n xs ∧ ReadsReceived n ys :=
  List.forall_mem_append

theorem readsReceived_right : ReadsReceived n (rightReads n) ↔ 3 ≤ n := by
  constructor
  · intro h
    have := (h 2 (by simp [rightReads])).2
    omega
  · intro h i hi
    simp only [rightReads, List.cons_append, List.nil_append, List.mem_cons, List.mem_map,
      List.mem_range] at hi
    obtain rfl | rfl | rfl | rfl | ⟨k, hk, rfl⟩ := hi <;> omega

theorem readsReceived_body : ReadsReceived n bodyReads ↔ 52 ≤ n := by
  constructor
  · intro h
    have := (h 51 (by simp only [bodyReads, List.mem_map, List.mem_range]; exact ⟨47, by omega, rfl⟩)).2
    omega
  · intro h i hi
    simp only [bodyReads, List.mem_map, List.mem_range] at hi
    obtain ⟨k, hk, rfl⟩ := hi
    simp only [readHeaderLen]
    omega

theorem readsReceived_version : ReadsReceived n [8, 7] ↔ 9 ≤ n := by
  simp only [ReadsReceived, List.forall_mem_cons, List.not_mem_nil, false_imp_iff, implies_true, and_true]
  omega

end

section

variable {event : ZigbeeEventType} {reply : Reply} {z : ZigbeeMesh}

/-- With three bytes or more a parser with a test accepts just the replies that pass it. -/
theorem accepts_pollRead {code : Byte} (hc : parserCode event = some code) (h : 3 ≤ reply.read.length) :
    Accepts event reply.read.length (pollRead reply z) ↔ ReplyRight code reply.read := by
  rw [Accepts, hc]
  exact right_pollRead z h

/-- The parser reads only bytes received if and only if there are enough. -/
theorem processReads_iff :
    ReadsReceived reply.read.length (processReads event reply.read.length (pollRead reply z)) ↔
      Enough event reply.read := by
  cases hc : parserCode event with
  | none => simp [processReads, Enough, hc, ReadsReceived]
  | some code =>
    simp only [processReads, Enough, hc, reduceCtorEq, if_false]
    by_cases h3 : 3 ≤ reply.read.length
    · have ha := accepts_pollRead (z := z) hc h3
      by_cases hr : ReplyRight code reply.read
      · have hacc := ha.mpr hr
        by_cases hread : event = .readModule
        · rw [if_pos ⟨hread, hacc⟩, readsReceived_append, readsReceived_right, readsReceived_body]
          simp [h3, hr, hread]
        · rw [if_neg fun h => hread h.1]
          by_cases hlink : event = .linkModule
          · rw [if_pos ⟨hlink, hacc⟩, readsReceived_append, readsReceived_right, readsReceived_version]
            simp [h3, hr, hlink]
          · rw [if_neg fun h => hlink h.1, readsReceived_right]
            simp [h3, hread, hlink]
      · have hacc := mt ha.mp hr
        rw [if_neg fun h => hacc h.2, if_neg fun h => hacc h.2, readsReceived_right]
        simp [h3, hr]
    · refine iff_of_false (fun h => h3 (readsReceived_right.mp ?_)) (fun h => h3 h.1)
      split at h
      · exact (readsReceived_append.mp h).2
      · split at h
        · exact (readsReceived_append.mp h).2
        · exact h

end

/-! ## Two polls -/

section

variable (timestamp : BitVec 32) (reply : Reply) (z : ZigbeeMesh) (buff : Nat → Byte) (reads : List Int)

/-- The mesh with other bytes in the buffer and another record of reads. -/
def ZigbeeMesh.withBuff : ZigbeeMesh := { z with buff := buff, reads := reads }

/-- `zigbee_poll` up to the test of the timeout does not look at the buffer. -/
theorem pollBegin_withBuff :
    pollBegin timestamp reply (z.withBuff buff reads) =
      ((pollBegin timestamp reply z).1.withBuff buff reads, (pollBegin timestamp reply z).2) := by
  have htake : pollTake (z.withBuff buff reads) = (pollTake z).withBuff buff reads := by
    by_cases h : 0 < z.eventQueue.count <;> simp [pollTake, ZigbeeMesh.withBuff, h]
  have hidle : ∀ w : ZigbeeMesh, pollIdle timestamp reply (w.withBuff buff reads) =
      (pollIdle timestamp reply w).withBuff buff reads := by
    intro w
    simp only [pollIdle, ZigbeeMesh.withBuff, apply_ite ZigbeeMesh.timeReset]
    split <;> split <;> rfl
  have hstart : pollStart timestamp reply (z.withBuff buff reads) =
      ((pollStart timestamp reply z).1.withBuff buff reads, (pollStart timestamp reply z).2) := by
    simp only [pollStart, htake, hidle]
    by_cases he : z.event.event = .none
    · rw [if_pos he, if_pos (show (z.withBuff buff reads).event.event = .none from he)]
      generalize pollTake z = w
      cases hf : eventFrame w.param w.event.event <;> simp [ZigbeeMesh.withBuff, hf]
    · rw [if_neg he, if_neg (show ¬ (z.withBuff buff reads).event.event = .none from he)]
  have htick : ∀ w : ZigbeeMesh,
      pollTick timestamp (w.withBuff buff reads) = (pollTick timestamp w).withBuff buff reads := by
    intro w
    by_cases h : w.event.tick < w.event.timeout ∧ w.event.event ≠ .none <;>
    simp [pollTick, ZigbeeMesh.withBuff, h]
  rw [pollBegin, hstart]
  simp only [htick]
  rfl

/-- The buffer after the reply was read, below the number of bytes received. -/
theorem pollRead_withBuff {i : Nat} (h : i < reply.read.length) :
    (pollRead reply (z.withBuff buff reads)).buff i = (pollRead reply z).buff i := by
  rw [pollRead_buff _ _ h, pollRead_buff _ _ h]

end

/-- The same callbacks with the same results, the same parameters and the same versions. -/
def SameOutcome (x y : List Callback × ZigbeeMesh) : Prop :=
  x.1 = y.1 ∧ x.2.param = y.2.param ∧ x.2.fwVersion0 = y.2.fwVersion0 ∧ x.2.fwVersion1 = y.2.fwVersion1

instance (x y : List Callback × ZigbeeMesh) : Decidable (SameOutcome x y) :=
  inferInstanceAs (Decidable (_ ∧ _))

/-- Whatever the buffer held before, the outcome of the poll is the same, and it reads the buffer only
where bytes were received. -/
def Independent (timestamp : BitVec 32) (reply : Reply) (z : ZigbeeMesh) : Prop :=
  (∀ buff, SameOutcome (zigbeePoll timestamp reply { z with buff := buff })
    (zigbeePoll timestamp reply z)) ∧
  ReadsReceived reply.read.length (zigbeePoll timestamp reply { z with reads := [] }).2.reads

section

variable {timestamp : BitVec 32} {reply : Reply} {z : ZigbeeMesh}

/-- A poll that completes a request. -/
theorem zigbeePoll_due (h : pollDue (pollBegin timestamp reply z).1 = true) (buff : Nat → Byte)
    (reads : List Int) :
    zigbeePoll timestamp reply (z.withBuff buff reads) =
      pollComplete reply ((pollBegin timestamp reply z).1.withBuff buff reads) := by
  rw [zigbeePoll, pollBegin_withBuff]
  exact if_pos h

/-- With enough bytes the parser's verdict does not depend on the buffer. -/
theorem accepts_withBuff (h : Enough z.event.event reply.read) (buff : Nat → Byte) (reads : List Int) :
    Accepts z.event.event reply.read.length (pollRead reply (z.withBuff buff reads)) ↔
      Accepts z.event.event reply.read.length (pollRead reply z) := by
  cases hc : parserCode z.event.event with
  | none => simp [Accepts, hc]
  | some code =>
    simp only [Enough, hc] at h
    rw [accepts_pollRead hc h.1, accepts_pollRead hc h.1]

/-- A reply that is accepted has as many bytes as are read then. -/
theorem enough_accepts (h : Enough z.event.event reply.read)
    (ha : Accepts z.event.event reply.read.length (pollRead reply z)) :
    (z.event.event = .linkModule → 9 ≤ reply.read.length) ∧
      (z.event.event = .readModule → 52 ≤ reply.read.length) := by
  cases hc : parserCode z.event.event with
  | none =>
    constructor <;> intro he <;> rw [he] at hc <;> cases hc
  | some code =>
    simp only [Enough, hc] at h
    exact h.2 ((accepts_pollRead hc h.1).mp ha)

/-- With enough bytes the outcome of the completion does not depend on the buffer. -/
theorem pollComplete_withBuff (h : Enough z.event.event reply.read) (buff : Nat → Byte)
    (reads : List Int) :
    SameOutcome (pollComplete reply (z.withBuff buff reads)) (pollComplete reply z) := by
  have hacc := accepts_withBuff h buff reads
  rw [pollComplete_eq, pollComplete_eq]
  refine ⟨?_, ?_, ?_, rfl⟩
  · exact congrArg (_ ++ Option.toList ·) (ite_congr (propext hacc) (fun _ => rfl) fun _ => rfl)
  · refine ite_congr (propext (and_congr_right fun _ => hacc)) (fun ha => ?_) fun _ => rfl
    have h52 := (enough_accepts h ha.2).2 ha.1
    refine congrArg readParam (List.map_congr_left fun k hk => ?_)
    rw [List.mem_range] at hk
    exact pollRead_withBuff reply z buff reads (by simp only [readHeaderLen]; omega)
  · refine ite_congr (propext (and_congr_right fun _ => hacc)) (fun ha => ?_) fun _ => rfl
    have h9 := (enough_accepts h ha.2).1 ha.1
    simp only [version, pollRead_withBuff reply z buff reads (show 7 < reply.read.length by omega),
      pollRead_withBuff reply z buff reads (show 8 < reply.read.length by omega)]

end

/-- A poll that completes a request has the same outcome whatever an earlier reply left in the buffer,
and reads the buffer only where it received bytes, if and only if it received as many
bytes as the parser of the request reads. -/
theorem independent_iff (timestamp : BitVec 32) (reply : Reply) (z : ZigbeeMesh)
    (h : pollDue (pollBegin timestamp reply z).1 = true) :
    Independent timestamp reply z ↔ Enough (pollBegin timestamp reply z).1.event.event reply.read := by
  have hpoll := fun buff reads => zigbeePoll_due h buff reads
  have hreads : (zigbeePoll timestamp reply { z with reads := [] }).2.reads =
      processReads (pollBegin timestamp reply z).1.event.event reply.read.length
        (pollRead reply ((pollBegin timestamp reply z).1.withBuff z.buff [])) := by
    have hz : { z with reads := [] } = z.withBuff z.buff [] := rfl
    rw [hz, hpoll, pollComplete_eq]
    exact List.append_nil _
  rw [Independent, hreads, processReads_iff]
  refine ⟨fun h => h.2, fun henough => ⟨fun buff => ?_, henough⟩⟩
  have hz : { z with buff := buff } = z.withBuff buff z.reads := rfl
  have hself : z = z.withBuff z.buff z.reads := rfl
  rw [hz, hpoll]
  conv => arg 2; rw [hself, hpoll]
  have hx := pollComplete_withBuff (z := (pollBegin timestamp reply z).1) henough buff z.reads
  have hy := pollComplete_withBuff (z := (pollBegin timestamp reply z).1) henough z.buff z.reads
  exact ⟨hx.1.trans hy.1.symm, hx.2.1.trans hy.2.1.symm, hx.2.2.1.trans hy.2.2.1.symm,
    hx.2.2.2.trans hy.2.2.2.symm⟩

/-- A module whose request `event` is about to time out, with `bytes` in its buffer. -/
def waiting (event : ZigbeeEventType) (bytes : List Byte) : ZigbeeMesh where
  param := .zero
  event := ⟨300, 299, event, 0, 1⟩
  eventTmp := .zero
  eventQueue := Utils.cqueueInitStatic ⟨fun _ _ => .zero, []⟩ sizeofEventList
  fwVersion0 := 0
  fwVersion1 := 0
  buff := fun i => bytes.getD i 0
  buffLen := 0
  timeReset := 0
  reads := []

/-- A good reply to `zigbee_connect`. -/
def linkReply : Reply := ⟨[0xFA, 0x06, 0x0A, 0x44, 0x54, 0x4B, 0x52, 0x00, 0x0A, 0x49], by decide⟩

/-- No reply. -/
def noReply : Reply := ⟨[], by decide⟩

theorem independent_iff_link :
    Independent 1 linkReply (waiting .linkModule []) ↔ Enough .linkModule linkReply.read :=
  independent_iff 1 linkReply (waiting .linkModule []) (by decide)

/-- A restart is not answered. After an earlier reply to `zigbee_connect` its callback is told of
success, with an empty buffer it is not. -/
theorem not_independent : ¬ ∀ (timestamp : BitVec 32) (reply : Reply) (z : ZigbeeMesh),
    pollDue (pollBegin timestamp reply z).1 = true → Independent timestamp reply z := by
  intro h
  have hbad := (h 1 noReply (waiting .resetModule []) (by decide)).1 fun i => linkReply.bytes.getD i 0
  exact absurd hbad (by decide)

end Rs485.Zigbee
