import Rs485.Impl.RfApp
import Rs485.Proof.Zigbee.Replies

/-!
# The time that `rf_app_poll` measures

`rf_app_poll` passes 1 to `zigbee_poll`, however many ticks have passed, and the tick it
keeps is that behind the poll. So the timers of the module run with the clock if and only
if each poll comes one tick behind the one before; a poll that comes later is never made
up for.
-/

namespace Rs485.Rf

open Rs485.Framework Rs485.Zigbee

/-- The sum of the timestamps. -/
def total : List PollCall → Nat
  | [] => 0
  | p :: ps => p.timestamp.toNat + total ps

/-- The module with the next request taken, if none was in progress. -/
def taken (z : ZigbeeMesh) : ZigbeeMesh := if z.event.event = .none then pollTake z else z

/-- In the poll the time of a request that is started, and `time_reset` while there is none, advance by the
ticks since the poll before. -/
structure PollCall.InTime (p : PollCall) : Prop where
  tick : (taken p.zigbee).event.event ≠ .none →
    (taken p.zigbee).event.tick < (taken p.zigbee).event.timeout →
    (pollBegin p.timestamp p.reply p.zigbee).1.event.tick =
      (taken p.zigbee).event.tick + BitVec.ofNat 32 p.elapsed
  timeReset : (taken p.zigbee).event.event = .none →
    let timeReset :=
      (if 0 < p.reply.bytes.length then 0 else p.zigbee.timeReset) + BitVec.ofNat 32 p.elapsed
    (zigbeePoll p.timestamp p.reply p.zigbee).2.timeReset = if 10000 ≤ timeReset then 0 else timeReset

/-- The timestamps add up to the ticks from `rf_app_init` to the last poll, and all timers ran in time. -/
def RealTime (s : RfApp) : Prop := total s.polls = s.lastPoll - s.start ∧ ∀ p ∈ s.polls, p.InTime

/-- A poll is one tick behind the one before, or behind `rf_app_init`. -/
def OnTime (s : RfApp) : RfAct → Prop
  | .poll gap _ _ => rfDue (s.wait gap) = true → s.time + gap.toNat = s.lastPoll + 1
  | .other _ => True

instance decidableOnTime (s : RfApp) : (a : RfAct) → Decidable (OnTime s a)
  | .poll _ _ _ => inferInstanceAs (Decidable (_ → _))
  | .other _ => inferInstanceAs (Decidable True)

section

variable {p : PollCall} {s t : RfApp} {a : RfAct} {timestamp : BitVec 32} {reply : Reply} {z : ZigbeeMesh}

/-! ## The timers -/

theorem eventFrame_eq_none {param : ZigbeeParameter} {event : ZigbeeEventType} :
    eventFrame param event = none ↔ event = .none := by
  cases event <;> simp [eventFrame]

/-- The beginning of a poll with a request in progress or in the queue. -/
theorem pollStart_taken (h : (taken z).event.event ≠ .none) :
    (pollStart timestamp reply z).1 = taken z := by
  rw [taken] at h ⊢
  rw [pollStart]
  split
  · rename_i he
    rw [if_pos he] at h
    cases hframe : eventFrame (pollTake z).param (pollTake z).event.event with
    | none => exact absurd (eventFrame_eq_none.mp hframe) h
    | some frame => simp only [hframe]
  · rfl

/-- The beginning of a poll without any. -/
theorem pollStart_idle (h : (taken z).event.event = .none) :
    (pollStart timestamp reply z).1 = pollIdle timestamp reply (taken z) := by
  rw [taken] at h ⊢
  rw [pollStart]
  split
  · rename_i he
    rw [if_pos he] at h
    simp only [eventFrame_eq_none.mpr h]
  · rename_i he
    rw [if_neg he] at h
    exact absurd h he

/-- A request that is started advances by the timestamp. -/
theorem pollBegin_tick (h : (taken z).event.event ≠ .none)
    (hlt : (taken z).event.tick < (taken z).event.timeout) :
    (pollBegin timestamp reply z).1.event.tick = (taken z).event.tick + timestamp := by
  rw [pollBegin, pollStart_taken h]
  simp only [pollTick, hlt, ne_eq, h, not_false_eq_true, and_self, if_true]

theorem pollIdle_event (w : ZigbeeMesh) : (pollIdle timestamp reply w).event = w.event := by
  simp only [pollIdle]
  split <;> split <;> rfl

theorem pollIdle_timeReset (w : ZigbeeMesh) :
    (pollIdle timestamp reply w).timeReset =
      let timeReset := (if 0 < reply.bytes.length then 0 else w.timeReset) + timestamp
      if 10000 ≤ timeReset then 0 else timeReset := by
  simp only [pollIdle]
  split <;> split <;> simp [*]

theorem taken_timeReset : (taken z).timeReset = z.timeReset := by
  rw [taken, pollTake]
  split
  · split <;> rfl
  · rfl

/-- While there is none, `time_reset` does. -/
theorem zigbeePoll_timeReset (h : (taken z).event.event = .none) :
    (zigbeePoll timestamp reply z).2.timeReset =
      let timeReset := (if 0 < reply.bytes.length then 0 else z.timeReset) + timestamp
      if 10000 ≤ timeReset then 0 else timeReset := by
  have hnone : (pollIdle timestamp reply (taken z)).event.event = .none := by rw [pollIdle_event, h]
  have hbegin : (pollBegin timestamp reply z).1 = pollIdle timestamp reply (taken z) := by
    simp only [pollBegin, pollStart_idle h, pollTick, hnone, ne_eq, not_true_eq_false, and_false, if_false]
  have hdue : pollDue (pollIdle timestamp reply (taken z)) = false := by simp [pollDue, hnone]
  simp only [zigbeePoll, hbegin, hdue]
  rw [← taken_timeReset (z := z)]
  exact pollIdle_timeReset (taken z)

/-- With the ticks since the poll before as its timestamp a poll is in time. -/
theorem inTime (h : p.timestamp = BitVec.ofNat 32 p.elapsed) : p.InTime :=
  ⟨fun hne hlt => h ▸ pollBegin_tick hne hlt, fun hnone => h ▸ zigbeePoll_timeReset hnone⟩

/-! ## The run -/

/-- The tick kept is that of the time, and the last poll is not in the future. -/
structure Clocked (s : RfApp) : Prop where
  stamp : s.rfTimeStamp = halGetTick s.time
  start : s.start ≤ s.lastPoll
  lastPoll : s.lastPoll ≤ s.time

/-- The next call polls if the tick is another one. -/
theorem Clocked.due (h : Clocked s) (gap : BitVec 32) : rfDue (s.wait gap) = true ↔ 0 < gap.toNat := by
  have hgap : halGetTick (s.wait gap).time - (s.wait gap).rfTimeStamp = gap := by
    show halGetTick (s.time + gap.toNat) - s.rfTimeStamp = gap
    rw [h.stamp, halGetTick, halGetTick, BitVec.ofNat_add, BitVec.ofNat_toNat, BitVec.setWidth_eq,
      BitVec.add_comm, BitVec.add_sub_cancel]
  rw [rfDue, hgap, decide_eq_true_eq, BitVec.le_def]
  exact Iff.rfl

theorem clocked_init (h : rfApp.init s) : Clocked s := by
  obtain ⟨time, connectCb, readCb, resetCb, zigbee, rfl⟩ := h
  exact ⟨rfl, Nat.le_refl _, Nat.le_refl _⟩

/-- What an action does to the account: nothing, or it adds a poll. -/
inductive Accounts (s : RfApp) (a : RfAct) (t : RfApp) : Prop
  | same : OnTime s a → t.polls = s.polls → t.lastPoll = s.lastPoll → t.start = s.start → Accounts s a t
  | polled (p : PollCall) : p.timestamp = 1 → p.elapsed = t.lastPoll - s.lastPoll →
    s.lastPoll < t.lastPoll → t.polls = p :: s.polls → t.start = s.start →
    (OnTime s a ↔ t.lastPoll = s.lastPoll + 1) → Accounts s a t

theorem Clocked.next (h : Clocked s) (hn : rfApp.next s a = some t) : Clocked t ∧ Accounts s a t := by
  cases a with
  | other zigbee =>
    cases hn
    exact ⟨⟨h.stamp, h.start, h.lastPoll⟩, .same trivial rfl rfl rfl⟩
  | poll gap during reply =>
    have ht : rfAppPoll during reply (s.wait gap) = t := Option.some.inj hn
    have hdue := h.due gap
    have hlast := h.lastPoll
    rw [rfAppPoll] at ht
    by_cases hgap : 0 < gap.toNat
    · rw [if_pos (hdue.mpr hgap)] at ht
      subst ht
      refine ⟨⟨rfl, ?_, Nat.le_add_right _ _⟩, .polled _ rfl rfl ?_ rfl rfl ?_⟩
      · exact Nat.le_trans h.start (Nat.le_trans hlast (Nat.le_add_right _ _))
      · exact Nat.lt_of_le_of_lt hlast (Nat.lt_add_of_pos_right hgap)
      · exact ⟨fun hon => hon (hdue.mpr hgap), fun hon _ => hon⟩
    · have hzero : gap.toNat = 0 := by omega
      rw [if_neg (mt hdue.mp hgap)] at ht
      subst ht
      have htime : (s.wait gap).time = s.time := by
        show s.time + gap.toNat = s.time
        rw [hzero, Nat.add_zero]
      refine ⟨⟨?_, h.start, ?_⟩, .same (fun hd => absurd (hdue.mp hd) hgap) rfl rfl rfl⟩
      · rw [htime]
        exact h.stamp
      · rw [htime]
        exact hlast

/-- A poll adds 1. -/
theorem total_cons (ps : List PollCall) (h : p.timestamp = 1) : total (p :: ps) = total ps + 1 := by
  rw [total, h, Nat.add_comm]
  rfl

/-- A poll that came too late is not made up for. -/
def Behind (s : RfApp) : Prop := total s.polls < s.lastPoll - s.start

theorem RealTime.next (h : RealTime s) (hs : Clocked s) (ha : OnTime s a) (hx : Accounts s a t) :
    RealTime t := by
  have hle := hs.start
  obtain ⟨htotal, hin⟩ := h
  cases hx with
  | same _ hp hl hst =>
    rw [RealTime, hp, hl, hst]
    exact ⟨htotal, hin⟩
  | polled p h1 he hlt hp hst hon =>
    have hone := hon.mp ha
    rw [RealTime, hp, hst, total_cons _ h1]
    refine ⟨by omega, List.forall_mem_cons.mpr ⟨inTime ?_, hin⟩⟩
    · rw [h1, he, hone, Nat.add_sub_cancel_left]
      rfl

theorem RealTime.behind (h : RealTime s) (hs : Clocked s) (ha : ¬ OnTime s a) (hx : Accounts s a t) :
    Behind t := by
  have hle := hs.start
  have htotal := h.1
  cases hx with
  | same hon => exact absurd hon ha
  | polled p h1 he hlt hp hst hon =>
    have hne := mt hon.mpr ha
    rw [Behind, hp, hst, total_cons _ h1]
    omega

theorem Behind.next (h : Behind s) (hs : Clocked s) (hx : Accounts s a t) : Behind t := by
  have hle := hs.start
  rw [Behind] at h ⊢
  cases hx with
  | same _ hp hl hst => rwa [hp, hl, hst]
  | polled p h1 he hlt hp hst hon =>
    rw [hp, hst, total_cons _ h1]
    omega

end

theorem realTime_init {s : RfApp} (h : rfApp.init s) : RealTime s := by
  obtain ⟨time, connectCb, readCb, resetCb, zigbee, rfl⟩ := h
  exact ⟨(Nat.sub_self time).symm, fun p hp => by cases hp⟩

/-- From `rf_app_init` on the timestamps add up to the ticks up to the last poll, and the timers of the
module run in time, if and only if each poll is made one tick behind the one before. -/
theorem realTime_iff {s t : RfApp} {as : List RfAct} (hs : rfApp.init s) (h : rfApp.Run Lts.any s as t) :
    RealTime t ↔ rfApp.Run OnTime s as t := by
  refine h.kept_iff (J := Clocked) (I := RealTime) (B := Behind) (clocked_init hs) (realTime_init hs)
    ?_ ?_ ?_ ?_ (fun _ h => h) fun _ hb ht => Nat.ne_of_lt hb ht.1
  · exact fun s a t hc _ hn => (hc.next hn).1
  · exact fun s a t hc hr _ ha hn => hr.next hc ha (hc.next hn).2
  · exact fun s a t hc hr _ ha hn => hr.behind hc ha (hc.next hn).2
  · exact fun s a t hc hb _ hn => hb.next hc (hc.next hn).2

/-- The application behind `rf_app_init`, one tick before the tick wraps. -/
def booted : RfApp := rfAppInit 0xFFFFFFFF 1 2 3 (waiting .none [])

/-- Two polls, and a call between them in the same tick as the first, which does not poll. -/
theorem realTime_iff_booted :
    let as := [RfAct.poll 1 0 noReply, .poll 0 0 noReply, .poll 1 7 noReply]
    ∃ t, rfApp.Run Lts.any booted as t ∧ RealTime t ∧ t.polls.length = 2 := by
  intro as
  have h := Lts.Run.of_decide rfApp OnTime booted as (by decide +kernel)
  have hs : rfApp.init booted := ⟨0xFFFFFFFF, 1, 2, 3, _, rfl⟩
  have hany : rfApp.Run Lts.any booted as _ := h.mono fun _ _ _ => trivial
  exact ⟨_, hany, (realTime_iff hs hany).mpr h, by decide +kernel⟩

/-- A call that comes five ticks behind `rf_app_init` passes 1. -/
theorem not_realTime : ¬ ∀ (s t : RfApp) (as : List RfAct),
    rfApp.init s → rfApp.Run Lts.any s as t → RealTime t := by
  intro h
  have hrun := Lts.Run.any_of_exec rfApp booted [.poll 5 0 noReply] (by decide +kernel)
  have hbad := (h booted _ _ ⟨0xFFFFFFFF, 1, 2, 3, _, rfl⟩ hrun).1
  exact absurd hbad (by decide +kernel)

end Rs485.Rf
